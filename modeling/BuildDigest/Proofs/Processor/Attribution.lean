import BuildDigest.Proofs.Assembly.Reading
import BuildDigest.Proofs.Processor.WellBuilt

/-!
# Command lines and their projects

The command lines of a build stand in the arena in the order in which their events arrived.
A walk from a project that enters no other project meets those of them whose innermost
project it is, in that order, and a line is inside the core target if a target between the
line and its project has the name.

* `Tree.lines`, `Tree.lineValues` — the command lines of a tree, and what they say.
* `Tree.Attributed`, `Tree.Between` — the lines of a project, and what is between a line and
  its project.
* `Standing.exists_linesMet`, `Standing.isCore_iff` — what a walk meets, and what is inside the
  core target.
* `Represents.lineValues_step`, `Represents.lineValues_steps` — the lines after one event and
  after any.
* `Processor.processAll_attributed` — both, after any events.
-/

namespace BuildDigest

/-- A node is a target of a name, in any case. -/
def Node.IsTarget (name : String) (n : Node) : Prop :=
  n.kind = .target ∧ ∃ s, n.name = .text s ∧ Text.lower s = Text.lower name

namespace Tree

variable {t t' : Tree} {d i j k : Nat} {n line : Node}

/-- The command lines of a tree, in the order of their indices. -/
def lines (t : Tree) : List Node :=
  t.nodes.toList.filter (·.kind = .commandLine)

/-- What the command lines of a tree say. -/
def lineValues (t : Tree) : List Value :=
  t.lines.map (·.value)

/-- The command lines whose innermost project is a given one, each once and in the order of
their indices. -/
structure Attributed (t : Tree) (project : Node) (ns : List Node) : Prop where
  mem_iff : ∀ line, line ∈ ns ↔
    line ∈ t.lines ∧ t.enclosing (.int line.index) .project = .ok (some project)
  ordered : ns.Pairwise (·.index < ·.index)

/-- The command lines that a walk from a place meets when it does not enter other projects. -/
def linesMet (t : Tree) (i : Nat) : Except Fault (List Node) :=
  (t.walk (.int i) (·.kind = .project)).map (·.filter (·.kind = .commandLine))

/-- The nodes above a command line, up to its project and without it. -/
structure Between (t : Tree) (line project : Node) (ns : List Node) : Prop where
  ancestors : ∃ outer, t.ancestors (.int line.index) = .ok (ns ++ project :: outer)
  inside : ∀ m ∈ ns, m.kind ≠ .project

-- ---------------------------------------------------------------------------
-- The arena
-- ---------------------------------------------------------------------------

/-- All places give all entries. -/
theorem filterMap_getElem?_range {α : Type} (xs : List α) :
    (List.range xs.length).filterMap (xs[·]?) = xs := by
  induction xs with
  | nil => rfl
  | cons x xs ih =>
    rw [List.length_cons, List.range_succ_eq_map, List.filterMap_cons, List.filterMap_map]
    exact congrArg (x :: ·) ih

theorem nodesAt_range (t : Tree) : t.nodesAt (List.range t.size) = t.nodes.toList := by
  have hRange := filterMap_getElem?_range t.nodes.toList
  simpa [nodesAt, size] using hRange

theorem lines_eq (t : Tree) : t.lines = t.nodesAt (t.select Node.isLine) := by
  rw [lines, ← nodesAt_range, filter_nodesAt]
  rfl

/-- What the lines of a tree say can be read off their rows. -/
theorem lineValues_eq (t : Tree) :
    t.lineValues = (t.select Node.isLine).filterMap fun d => (t.row d).map (·.value) := by
  rw [lineValues, lines_eq, nodesAt, List.map_filterMap]
  refine List.filterMap_congr fun d _ => ?_
  rw [row, Option.map_map]
  rfl

/-- A node that comes says something if it is a command line, and is the last one then. -/
theorem lineValues_add (t : Tree) (parent : Value) (n : Node) :
    (t.add parent n).lineValues = t.lineValues ++ if n.isLine then [n.value] else [] := by
  have hOld : (t.select Node.isLine).filterMap (fun d => ((t.add parent n).row d).map (·.value)) =
      (t.select Node.isLine).filterMap fun d => (t.row d).map (·.value) := by
    refine List.filterMap_congr fun d hd => ?_
    rw [row_add_of_lt (lt_size_of_mem_select hd)]
  have hLine : (n.placed t.size parent).isLine = n.isLine := rfl
  rw [lineValues_eq, lineValues_eq, select_add, List.filterMap_append, hOld, hLine]
  congr 1
  split
  · rw [List.filterMap_cons, row_add_size]
    rfl
  · rfl

/-- Trees with the same command lines, saying the same, say the same together. -/
theorem lineValues_congr (hSelect : t'.select Node.isLine = t.select Node.isLine)
    (hRow : ∀ d ∈ t.select Node.isLine, (t'.row d).map (·.value) = (t.row d).map (·.value)) :
    t'.lineValues = t.lineValues := by
  rw [lineValues_eq, lineValues_eq, hSelect]
  exact List.filterMap_congr hRow

/-- Finishing a node leaves what command lines say. -/
theorem lineValues_finishing (t : Tree) (i : Nat) (v : Value) :
    (t.change i (finishing v)).lineValues = t.lineValues := by
  refine lineValues_congr (select_change (keeps_finishing v) (fun _ => rfl) t i) fun d _ => ?_
  rw [row_change (keeps_finishing v)]
  split
  · rw [Option.map_map]
    rfl
  · rfl

/-- Filing leaves what command lines say. -/
theorem Filed.lineValues_eq {S : Nat → Prop} (h : Filed S t t') : t'.lineValues = t.lineValues := by
  have hLogged (n : Node) (hn : n.isLine = true) : n.kind.isFiling = false := by
    have hKind : n.kind = .commandLine := of_decide_eq_true hn
    rw [hKind]
    rfl
  refine lineValues_congr (h.select_eq isLine_congr hLogged) fun d hd => ?_
  obtain ⟨n, hRow, hn⟩ := mem_select.mp hd
  rw [hRow, h.logged d n hRow (hLogged n hn)]

-- ---------------------------------------------------------------------------
-- The lines of a project
-- ---------------------------------------------------------------------------

theorem mem_lines_iff :
    line ∈ t.lines ↔ ∃ d : Nat, t.nodes[d]? = some line ∧ line.kind = .commandLine := by
  rw [lines, List.mem_filter, Array.mem_toList_iff, Array.mem_iff_getElem?, decide_eq_true_eq,
    exists_and_right]

/-- A search upwards from a command line finds the innermost project above it. -/
theorem WellFormed.enclosing_of_line (hWf : t.WellFormed) (hLine : t.nodes[d]? = some line)
    (hKind : line.kind = .commandLine) :
    t.enclosing (.int d) .project = .ok ((t.projectAbove d).bind (t.nodes[·]?)) := by
  have hd := lt_size_of_row (row_of_nodes hLine)
  have hTrail : ∀ j ∈ t.trail d, j < t.size := fun j hj => hWf.lt_size_of_mem_trail hd hj
  rw [hWf.enclosing_eq_find? hd, nodesAt_cons_of_nodes hLine, List.find?_cons, hKind]
  exact congrArg Except.ok (find?_nodesAt hTrail)

/-- The search upwards from a line finds the project above it. -/
theorem WellFormed.projectAbove_iff (hWf : t.WellFormed) (hLine : t.nodes[d]? = some line)
    (hKind : line.kind = .commandLine) (hn : t.nodes[j]? = some n) :
    t.projectAbove d = some j ↔ t.enclosing (.int d) .project = .ok (some n) := by
  rw [hWf.enclosing_of_line hLine hKind, Except.ok.injEq, Option.bind_eq_some_iff]
  constructor
  · intro hAbove
    exact ⟨j, hAbove, hn⟩
  · rintro ⟨k, hAbove, hk⟩
    rwa [← hWf.index_of_nodes hn, hWf.index_of_nodes hk]

/-- Two projects have no command line in common. -/
theorem Attributed.disjoint {m : Node} {ns ms : List Node} (h : t.Attributed n ns)
    (h' : t.Attributed m ms) (hne : n ≠ m) : ns.Disjoint ms := by
  intro line hn hm
  have hFirst := ((h.mem_iff line).mp hn).2
  rw [((h'.mem_iff line).mp hm).2] at hFirst
  exact hne (Option.some.inj (Except.ok.inj hFirst)).symm

/-- Nodes at growing places have growing indices. -/
theorem WellFormed.pairwise_nodesAt (hWf : t.WellFormed) {ds : List Nat}
    (h : ds.Pairwise (· < ·)) : (t.nodesAt ds).Pairwise (·.index < ·.index) := by
  rw [nodesAt, List.pairwise_filterMap]
  refine h.imp fun {d e} hlt n hn m hm => ?_
  rwa [hWf.index_of_nodes hn, hWf.index_of_nodes hm]

theorem WellFormed.pairwise_lines (hWf : t.WellFormed) :
    t.lines.Pairwise (·.index < ·.index) := by
  rw [lines_eq]
  exact hWf.pairwise_nodesAt (pairwise_select t _)

/-- A walk from a project meets exactly its lines. -/
theorem Standing.exists_linesMet (h : t.Standing i) (hn : t.nodes[j]? = some n)
    (hKind : n.kind = .project) : ∃ ns, t.linesMet j = .ok ns ∧ t.Attributed n ns := by
  have hWf := h.wellFormed
  have hProject : t.isProjectAt j = true := by
    rw [isProjectAt, row_of_nodes hn]
    exact decide_eq_true hKind
  have hSome : ¬ t.size = 0 := Nat.ne_of_gt (Nat.zero_lt_of_lt (lt_size_of_isProjectAt hProject))
  have hMet : t.linesMet j = .ok (t.nodesAt (t.linesOf j)) := by
    rw [linesMet, walk, if_neg hSome, node_natCast hn, Except.map, Except.map,
      hWf.branching.below_eq hn, filter_nodesAt, ← h.lines_below hProject]
    rfl
  refine ⟨_, hMet, fun line => ?_, hWf.pairwise_nodesAt ((pairwise_select t _).filter _)⟩
  rw [mem_lines_iff, nodesAt, List.mem_filterMap]
  constructor
  · rintro ⟨d, hd, hLine⟩
    obtain ⟨hSelect, hAbove⟩ := List.mem_filter.mp hd
    obtain ⟨m, hRow, hIs⟩ := mem_select.mp hSelect
    rw [row_of_nodes hLine] at hRow
    cases hRow
    have hLineKind : line.kind = .commandLine := of_decide_eq_true hIs
    rw [hWf.index_of_nodes hLine]
    exact ⟨⟨d, hLine, hLineKind⟩,
      (hWf.projectAbove_iff hLine hLineKind hn).mp (of_decide_eq_true hAbove)⟩
  · rintro ⟨⟨d, hLine, hLineKind⟩, hEnclosing⟩
    rw [hWf.index_of_nodes hLine] at hEnclosing
    have hAbove := (hWf.projectAbove_iff hLine hLineKind hn).mpr hEnclosing
    have hSelect : d ∈ t.select Node.isLine :=
      mem_select.mpr ⟨line.bare, row_of_nodes hLine, decide_eq_true hLineKind⟩
    exact ⟨d, List.mem_filter.mpr ⟨hSelect, decide_eq_true hAbove⟩, hLine⟩

-- ---------------------------------------------------------------------------
-- The core target
-- ---------------------------------------------------------------------------

/-- A place is a target of a name exactly if there is such a node. -/
theorem targetNameAt_eq_some_iff {s : String} :
    t.targetNameAt k = some s ↔
      ∃ m, t.nodes[k]? = some m ∧ m.kind = .target ∧ m.name = .text s := by
  have hNode (m : Node) : m.targetName? = some s ↔ m.kind = .target ∧ m.name = .text s := by
    rw [Node.targetName?]
    by_cases hKind : m.kind = .target
    · rw [if_pos hKind]
      cases m.name <;> simp [hKind]
    · simp [hKind]
  rw [targetNameAt, row, Option.bind_map, Option.bind_eq_some_iff]
  exact exists_congr fun m => and_congr_right fun _ => hNode m.bare

/-- Among nodes there is a target of a name exactly if it is one of the names of their targets. -/
theorem any_targetNameAt {js : List Nat} {name : String} :
    ((js.filterMap t.targetNameAt).any fun s => Text.lower s = Text.lower name) = true ↔
      ∃ m ∈ t.nodesAt js, m.IsTarget name := by
  simp only [List.any_eq_true, List.mem_filterMap, targetNameAt_eq_some_iff, decide_eq_true_eq,
    nodesAt]
  constructor
  · rintro ⟨s, ⟨k, hk, m, hm, hKind, hName⟩, hLower⟩
    exact ⟨m, ⟨k, hk, hm⟩, hKind, s, hName, hLower⟩
  · rintro ⟨m, ⟨k, hk, hm⟩, hKind, s, hName, hLower⟩
    exact ⟨s, ⟨k, hk, m, hm, hKind, hName⟩, hLower⟩

/-- What is between a line and its project, and whether the line is inside the core target. -/
theorem Standing.isCore_iff (h : t.Standing i) (hn : t.nodes[j]? = some n) (hMem : line ∈ t.lines)
    (hEnclosing : t.enclosing (.int line.index) .project = .ok (some n)) :
    ∃ ns, t.Between line n ns ∧ ∀ (g : Gathering) (name : String),
      g.settings.coreTarget = .text name → ∃ b, g.isCore t n line = .ok b ∧
        (b = true ↔ ∃ m ∈ ns, m.IsTarget name) := by
  have hWf := h.wellFormed
  obtain ⟨d, hLine, hKind⟩ := mem_lines_iff.mp hMem
  have hIndex := hWf.index_of_nodes hLine
  rw [hIndex] at hEnclosing
  have hAbove := (hWf.projectAbove_iff hLine hKind hn).mpr hEnclosing
  obtain ⟨js, rest, hTrail, hProject, hjs⟩ :=
    hWf.exists_trail_of_projectAbove (lt_size_of_row (row_of_nodes hLine)) hAbove
  refine ⟨t.nodesAt js, ⟨⟨t.nodesAt rest, ?_⟩, ?_⟩, ?_⟩
  · have hNodes : t.nodesAt (t.trail d) = t.nodesAt js ++ n :: t.nodesAt rest := by
      rw [hTrail, nodesAt, List.filterMap_append, List.filterMap_cons, hn]
      rfl
    rw [hIndex]
    simp only [ancestors, node_natCast hLine, hWf.above_eq_nodesAt_trail hLine, hNodes]
  · intro m hm hIs
    obtain ⟨k, hk, hm⟩ := List.mem_filterMap.mp hm
    have hNot := (hjs k hk).2
    rw [isProjectAt, row_of_nodes hm] at hNot
    exact absurd (decide_eq_true hIs) (Bool.not_eq_true _ ▸ hNot)
  · intro g name hName
    have hCore : g.settings.coreName = .ok (Text.lower name) := by
      rw [Settings.coreName, hName]
      rfl
    refine ⟨_, ?_, any_targetNameAt⟩
    rw [Gathering.isCore, hCore]
    simp only [hWf.above_eq_nodesAt_trail hLine, hTrail, hWf.index_of_nodes hn,
      h.meetsCore_eq hjs hProject]

end Tree

-- ---------------------------------------------------------------------------
-- Events
-- ---------------------------------------------------------------------------

/-- What the command lines among events say. -/
def Event.lineValues (events : List Event) : List Value :=
  (events.filter Event.isCall).map (·.commandLine)

namespace Assembly

variable {a a' : Assembly} {l : Ledger} {i j k : Nat} {e : Event}

/-- The root says nothing. -/
theorem lineValues_current (a : Assembly) : a.current.1.tree.lineValues = a.tree.lineValues := by
  unfold current
  split
  · rfl
  · dsimp only
    split
    · exact (Tree.lineValues_add _ _ _).trans (List.append_nil _)
    · rfl

theorem lineValues_addNode (a : Assembly) (n : Node) :
    (a.addNode n).tree.lineValues = a.tree.lineValues ++ if n.isLine then [n.value] else [] := by
  rw [← lineValues_current a]
  exact Tree.lineValues_add _ _ _

/-- A part that starts says nothing. -/
theorem lineValues_openNode (a : Assembly) {n : Node} (hLine : n.isLine = false) :
    (a.openNode n).1.tree.lineValues = a.tree.lineValues := by
  have hAdd := a.lineValues_addNode n
  rw [hLine, if_neg Bool.false_ne_true, List.append_nil] at hAdd
  exact hAdd

/-- A part that finishes leaves what was said. -/
theorem lineValues_closeNode (a : Assembly) (e : Event) :
    (a.closeNode e).tree.lineValues = a.tree.lineValues := by
  unfold closeNode
  split
  · exact Tree.lineValues_finishing _ _ _
  · rfl

/-- What is reported on a project says nothing. -/
theorem Opened.lineValues_addData (h : a.Opened i l)
    (hj : (a.tree.select Node.isProject)[k]? = some j) (hData : a.addData j e = .ok a') :
    a'.tree.lineValues = a.tree.lineValues := by
  obtain ⟨t₁, t₂, -, hSet, hAdd, hFiled, -⟩ := h.tree.report hj e
  rw [Assembly.addData, hSet] at hData
  simp only [hAdd] at hData
  cases hData
  exact hFiled.lineValues_eq

/-- A project that starts says nothing. -/
theorem Represents.lineValues_startProject (h : a.Represents l) (hFile : e.projectFile.ReadsAsText)
    (hStep : a.startProject e = .ok a') : a'.tree.lineValues = a.tree.lineValues := by
  obtain ⟨a₁, i, hCurrent, hOpened⟩ := h.current
  have hText : e.projectFile.orEmpty.asText .replace = .ok e.projectFile.plain := by
    rw [hFile.orEmpty_eq]
    rfl
  have hTree := hOpened.tree.enterProject (n := projectNode e.projectFile.plain) rfl ⟨_, rfl⟩
    rfl rfl
  have hOpen := a.lineValues_openNode (n := projectNode e.projectFile.plain) rfl
  rw [openNode_eq hCurrent] at hOpen
  simp only [Assembly.startProject, hText, openNode_eq hCurrent] at hStep
  exact ((hOpened.add_open hTree).lineValues_addData hTree.stacked.here hStep).trans hOpen

/-- A message says what its command line says, if it has one. -/
theorem lineValues_addMessage (hStep : a.addMessage e = .ok a') :
    a'.tree.lineValues =
      a.tree.lineValues ++ if e.isCommandLine then [e.commandLine] else [] := by
  unfold addMessage at hStep
  cases hLine : e.isCommandLine with
  | false =>
    rw [hLine] at hStep
    cases hStep
    exact lineValues_addNode _ _
  | true =>
    rw [hLine, if_pos rfl] at hStep
    dsimp only at hStep
    split at hStep
    · cases hStep
    · cases hStep
      rw [lineValues_addNode, lineValues_current]
      rfl

/-- Late data says nothing. -/
theorem Represents.lineValues_addLate (h : a.Represents l) (hStep : a.addLate e = .ok a') :
    a'.tree.lineValues = a.tree.lineValues := by
  have hCurrentLines := lineValues_current a
  unfold Assembly.addLate at hStep
  split at hStep
  · cases hStep
    rfl
  · obtain ⟨a₁, i, hCurrent, hOpened⟩ := h.current
    have hEnclosing := hOpened.tree.stacked.enclosing_project hOpened.tree.standing
    rw [hCurrent] at hStep hCurrentLines
    cases hInnermost : Ledger.innermost l.frames with
    | none =>
      rw [hInnermost] at hEnclosing
      simp only [hEnclosing] at hStep
      cases hStep
      exact hCurrentLines
    | some k =>
      obtain ⟨j, hj⟩ := hOpened.tree.stacked.exists_project hInnermost
      obtain ⟨n, hn⟩ := Tree.exists_node (Tree.lt_size_of_mem_select (List.mem_of_getElem? hj))
      rw [hInnermost, Option.bind_some, hj, Option.bind_some, hn] at hEnclosing
      simp only [hEnclosing, hOpened.tree.standing.wellFormed.index_of_nodes hn] at hStep
      exact (hOpened.lineValues_addData hj hStep).trans hCurrentLines

/-- An event that carries a command line puts it behind all others, and no other event does. -/
theorem Represents.lineValues_step (h : a.Represents l) (hTextual : e.Textual)
    (hStep : a.step e = .ok a') :
    a'.tree.lineValues = a.tree.lineValues ++ if e.isCall then [e.commandLine] else [] := by
  have hOther (hSame : a'.tree.lineValues = a.tree.lineValues) :
      a'.tree.lineValues = a.tree.lineValues ++ [] := by
    rw [hSame, List.append_nil]
  unfold Assembly.step at hStep
  rw [Event.isCall]
  cases hKind : e.kind with
  | buildStarted =>
    rw [hKind] at hStep
    cases hStep
    exact hOther (lineValues_current a)
  | buildFinished =>
    rw [hKind] at hStep
    cases hStep
    have hFinish := Tree.lineValues_finishing a.current.1.tree 0 e.succeeded
    exact hOther (hFinish.trans (lineValues_current a))
  | projectStarted =>
    rw [hKind] at hStep
    exact hOther (h.lineValues_startProject hTextual.projectFile.readsAsText hStep)
  | targetStarted | taskStarted =>
    rw [hKind] at hStep
    cases hStep
    exact hOther (lineValues_openNode a rfl)
  | projectFinished | targetFinished | taskFinished =>
    rw [hKind] at hStep
    cases hStep
    exact hOther (lineValues_closeNode a e)
  | message | warning | error =>
    rw [hKind] at hStep
    exact lineValues_addMessage hStep
  | custom | status =>
    rw [hKind] at hStep
    exact hOther (h.lineValues_addLate hStep)

/-- The command lines of a tree stand in the order in which their events arrived. -/
theorem Represents.lineValues_steps (h : a.Represents l) {events : List Event}
    (hTextual : ∀ e ∈ events, e.Textual) (hSteps : a.steps events = .ok a') :
    a'.tree.lineValues = a.tree.lineValues ++ Event.lineValues events := by
  induction events generalizing a l with
  | nil =>
    cases hSteps
    exact (List.append_nil _).symm
  | cons e rest ih =>
    rw [List.forall_mem_cons] at hTextual
    obtain ⟨a₁, hStep, h₁⟩ := h.step hTextual.1
    rw [Assembly.steps, hStep] at hSteps
    rw [ih h₁ hTextual.2 hSteps, h.lineValues_step hTextual.1 hStep, List.append_assoc,
      Event.lineValues, Event.lineValues, List.filter_cons]
    cases e.isCall <;> rfl

end Assembly

namespace Processor

/-- After any events the command lines stand in the order in which they arrived. A walk from a
project meets those that the search upwards leads to the project, in that order, and no other
project has any of them. A line is inside the core target exactly if there is a target of this
name between the line and the project. -/
theorem processAll_attributed (cwd project : String) (settings : Settings)
    (observers : List Observer) (events : List Event) (hTextual : ∀ e ∈ events, e.Textual) :
    ∃ p₀ p a, start cwd (.text project) settings true observers = .ok p₀ ∧
      p₀.processAll events = (p, none) ∧ p.assembly = some a ∧
      a.tree.lines.Pairwise (·.index < ·.index) ∧
      a.tree.lineValues = Event.lineValues events ∧
      ∀ (i : Nat) (n : Node), a.tree.nodes[i]? = some n → n.kind = .project →
        ∃ ns, a.tree.linesMet i = .ok ns ∧ a.tree.Attributed n ns ∧
          (∀ (j : Nat) (m : Node) (ms : List Node), j ≠ i → a.tree.nodes[j]? = some m →
            m.kind = .project → a.tree.linesMet j = .ok ms → ns.Disjoint ms) ∧
          ∀ line ∈ ns, ∃ above, a.tree.Between line n above ∧
            ∀ (g : Gathering) (name : String), g.settings.coreTarget = .text name →
              ∃ b, g.isCore a.tree n line = .ok b ∧
                (b = true ↔ ∃ m ∈ above, m.IsTarget name) := by
  have hStart := Assembly.represents_start
  obtain ⟨a, hSteps, hRepresents⟩ := hStart.steps hTextual
  have hIdle : (idle cwd (Path.normalize cwd project) settings true observers).assembly =
      some {} := rfl
  obtain ⟨p, hAll, hAssembly, -⟩ := processAll_eq hIdle hSteps
  have hValues := hStart.lineValues_steps hTextual hSteps
  rcases hRepresents with ⟨-, hEmpty, -⟩ | ⟨k, hOpened⟩
  · refine ⟨_, p, a, rfl, hAll, hAssembly, ?_, hValues, ?_⟩
    · rw [hEmpty]
      exact Tree.wellFormed_empty.pairwise_lines
    · intro i n hn _
      rw [hEmpty] at hn
      cases hn
  · have hStanding := hOpened.tree.standing
    have hWf := hStanding.wellFormed
    refine ⟨_, p, a, rfl, hAll, hAssembly, hWf.pairwise_lines, hValues, ?_⟩
    intro i n hn hKind
    obtain ⟨ns, hMet, hLines⟩ := hStanding.exists_linesMet hn hKind
    refine ⟨ns, hMet, hLines, ?_, ?_⟩
    · intro j m ms hne hm hOther hMet'
      obtain ⟨ms', hMet'', hLines'⟩ := hStanding.exists_linesMet hm hOther
      obtain rfl := Except.ok.inj (hMet'.symm.trans hMet'')
      refine hLines.disjoint hLines' ?_
      rintro rfl
      exact hne ((hWf.index_of_nodes hm).symm.trans (hWf.index_of_nodes hn))
    · intro line hLine
      obtain ⟨hMem, hEnclosing⟩ := (hLines.mem_iff line).mp hLine
      exact hStanding.isCore_iff hn hMem hEnclosing

/-- A project that builds another one between two lines, and a line outside of both. -/
def nestedCalls : List Event :=
  [ { kind := .message, commandLine := .text "csc early.cs" },
    { kind := .projectStarted, projectFile := .text "/p/a.csproj" },
    { kind := .targetStarted, targetName := .text "corecompile" },
    { kind := .message, commandLine := .text "csc a.cs" },
    { kind := .projectStarted, projectFile := .text "/p/b.csproj" },
    { kind := .message, commandLine := .text "csc b.cs" },
    { kind := .status, properties := [("Platform", "x64")] },
    { kind := .projectFinished, succeeded := .bool true },
    { kind := .warning, commandLine := .text "csc late.cs" } ]

theorem processAll_attributed_nestedCalls :
    (∀ e ∈ nestedCalls, e.Textual) ∧
      ∃ p₀ p a n ns, start "/" (.text "/p/a.csproj") {} true [] = .ok p₀ ∧
        p₀.processAll nestedCalls = (p, none) ∧ p.assembly = some a ∧
        a.tree.nodes[2]? = some n ∧ a.tree.linesMet 2 = .ok ns ∧ a.tree.Attributed n ns ∧
        ns.map (·.value) = [.text "csc a.cs", .text "csc late.cs"] := by
  have hTextual : ∀ e ∈ nestedCalls, e.Textual := by decide
  obtain ⟨p₀, p, a, hStart, hAll, hAssembly, -, -, hProjects⟩ :=
    processAll_attributed "/" "/p/a.csproj" {} [] nestedCalls hTextual
  refine ⟨hTextual, p₀, p, a, ?_⟩
  cases hStart
  cases hAll
  cases hAssembly
  obtain ⟨ns, hMet, hLines, -⟩ := hProjects 2 _ rfl rfl
  refine ⟨_, ns, rfl, rfl, rfl, rfl, hMet, hLines, ?_⟩
  cases hMet
  rfl

end Processor

end BuildDigest
