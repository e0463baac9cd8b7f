import BuildDigest.Proofs.Forest.Growth

/-!
# Events inside an open node

Each event of a forest is taken below the innermost open node: a started event
opens the next node there, a message is the next node, a report is filed for the
project around, and a finished event closes the node. None of them is at fault.

* `Assembly.Within` — an assembly with an innermost open node.
* `Entered` — an assembly just inside a part.
* `Within.enter`, `Within.message`, `Within.data`, `Within.leave` — single events.
-/

namespace BuildDigest

namespace Span

variable (s : Span)

theorem isLogged_node : s.node.isLogged = true := by
  unfold node
  cases s.part <;> rfl

theorem isProject_node : s.node.isProject = decide (s.part = .project) := by
  unfold node
  cases s.part <;> rfl

/-- The node of a part tells the name of the innermost task inside the part. -/
theorem taskName?_node (task : String) : s.node.taskName?.getD task = s.taskInside task := by
  unfold node taskInside
  cases s.part <;> rfl

theorem name_node : ∃ name, s.node.name = .text name := by
  unfold node
  cases s.part <;> exact ⟨_, rfl⟩

/-- What is stored in the project around a part, seen from inside it. -/
def carried (es : List Event) : List Event :=
  if s.part = .project then [s.opening] else es

end Span

namespace Event

theorem isLogged_messageNode (e : Event) (task : String) :
    (e.messageNode task).isLogged = true := by
  unfold messageNode
  split <;> rfl

theorem name_messageNode (e : Event) (task : String) :
    ∃ s, (e.messageNode task).name = .text s := by
  unfold messageNode
  split <;> exact ⟨_, rfl⟩

end Event

namespace Tree

variable {t : Tree} {p : Nat}

/-- The first task among some nodes has the first name of a task among their places. -/
theorem NamesText.find?_task (hNames : t.NamesText) {js : List Nat} (hjs : ∀ j ∈ js, j < t.size) :
    (((t.nodesAt js).find? (·.kind = .task)).map (·.name)).getD (.text "") =
      .text ((js.filterMap t.taskNameAt).head?.getD "") := by
  induction js with
  | nil => rfl
  | cons j js ih =>
    rw [List.forall_mem_cons] at hjs
    obtain ⟨n, hn⟩ := exists_node hjs.1
    have hRow : t.row j = some n.bare := by rw [row, hn, Option.map_some]
    obtain ⟨s, hs⟩ := hNames j n.bare hRow
    have hs : n.name = .text s := hs
    have hHere : t.taskNameAt j = if n.kind = .task then some s else none := by
      rw [taskNameAt, hRow, Option.bind_some, Node.taskName?, Node.bare, hs]
    rw [nodesAt_cons_of_nodes hn, List.find?_cons, List.filterMap_cons, hHere]
    by_cases hKind : n.kind = .task
    · rw [if_pos hKind, decide_eq_true hKind]
      exact hs
    · rw [if_neg hKind, decide_eq_false hKind]
      exact ih hjs.2

/-- The search for an enclosing task finds the one whose name is over the node. -/
theorem Standing.enclosing_taskOver (h : t.Standing p) :
    ∃ found, t.enclosing (.int p) .task = .ok found ∧
      (found.map (·.name)).getD (.text "") = .text (t.taskOver p) :=
  ⟨_, h.wellFormed.enclosing_eq_find? h.isOpen .task, h.namesText.find?_task h.lt_size_of_open⟩

/-- Reports inside a node go to its holder. -/
theorem Standing.enclosing_holder (h : t.Standing p) :
    t.enclosing (.int p) .project = .ok ((t.holder p).bind (t.nodes[·]?)) := by
  rw [h.wellFormed.enclosing_eq_find? h.isOpen, find?_nodesAt h.lt_size_of_open]
  rfl

end Tree

namespace Assembly

variable {a : Assembly} {p i j : Nat} {es : List Event} {n : Node} {e : Event}

/-- An assembly whose innermost open node is `p`, where the project around it stores `es`. -/
structure Within (a : Assembly) (p : Nat) (es : List Event) : Prop where
  openNodes : a.openNodes = p :: a.tree.trail p
  standing : a.tree.Standing p
  foldered : a.tree.Foldered
  logged : p ∈ a.tree.select Node.isLogged
  stored : ∀ i, a.tree.holder p = some i → a.tree.Stores i es

theorem Within.current (h : a.Within p es) : a.current = (a, p) := by
  rw [Assembly.current, h.openNodes]

/-- What grows below the open node leaves the project around it. -/
theorem Within.holder_eq (h : a.Within p es) {held : Option Nat} {js is : List Nat} {t : Tree}
    (hGrows : a.tree.Grows p held js is t) : t.holder p = a.tree.holder p :=
  hGrows.spares.holder_eq h.standing.wellFormed h.standing.isOpen

/-- What grows below the open node leaves the task around it. -/
theorem Within.taskOver_eq (h : a.Within p es) {held : Option Nat} {js is : List Nat} {t : Tree}
    (hGrows : a.tree.Grows p held js is t) : t.taskOver p = a.tree.taskOver p :=
  hGrows.spares.taskOver_eq h.standing.wellFormed h.standing.isOpen

theorem Within.le_of_holder (h : a.Within p es) : ∀ i, a.tree.holder p = some i → i ≤ p :=
  fun _ hi => h.standing.wellFormed.le_of_holder hi

/-- A node logged below the open one is a branch of it, and nothing else grows. -/
theorem Within.grows_log (h : a.Within p es) (hLogged : n.isLogged = true) :
    a.tree.Grows p none [a.tree.size] [a.tree.size] (a.tree.add (.int p) n) :=
  Tree.Grows.log h.standing.wellFormed h.logged hLogged

/-- A node logged below the open one is filed in no folder. -/
theorem Within.foldered_add (h : a.Within p es) (hLogged : n.isLogged = true) :
    (a.tree.add (.int p) n).Foldered := by
  refine h.foldered.add fun hFiling => ?_
  rw [Node.isLogged, hFiling] at hLogged
  cases hLogged

/-- A node is logged and stays closed. -/
theorem Within.log (h : a.Within p es) (hLogged : n.isLogged = true)
    (hName : ∃ s, n.name = .text s) :
    ({ a with tree := a.tree.add (.int p) n } : Assembly).Within p es where
  openNodes := by
    rw [Tree.trail_add_of_lt h.standing.isOpen]
    exact h.openNodes
  standing := h.standing.add hName
  foldered := h.foldered_add hLogged
  logged := (h.grows_log hLogged).mem h.logged
  stored i hi := by
    rw [h.holder_eq (h.grows_log hLogged)] at hi
    exact (h.stored i hi).add h.standing.wellFormed h.logged hLogged

/-- A node is logged and opened. -/
theorem Within.open (h : a.Within p es) (hLogged : n.isLogged = true)
    (hName : ∃ s, n.name = .text s) :
    ({ a with tree := a.tree.add (.int p) n, openNodes := a.tree.size :: a.openNodes }
      : Assembly).Within a.tree.size (if n.isProject then [] else es) where
  openNodes := by rw [Tree.trail_add_size h.standing.isOpen, h.openNodes]
  standing := h.standing.add_open hName
  foldered := h.foldered_add hLogged
  logged := (h.grows_log hLogged).mem_new (List.mem_singleton_self _)
  stored i hi := by
    have hWf := h.standing.wellFormed
    rw [hWf.holder_add_size h.standing.isOpen] at hi
    cases hProject : n.isProject with
    | true =>
      rw [hProject] at hi
      cases hi
      exact Tree.stores_add_size hWf h.standing.isOpen hProject
    | false =>
      rw [hProject] at hi
      exact (h.stored i hi).add hWf h.logged hLogged

/-- An event reports on the project around the open node. -/
theorem Within.report (h : a.Within p es) (hi : a.tree.holder p = some i) (e : Event) :
    ∃ a', a.addData i e = .ok a' ∧ a'.Within p (es ++ [e]) ∧
      a.tree.Grows p (some i) [] [] a'.tree := by
  have hWf := h.standing.wellFormed
  obtain ⟨t₁, t₂, hSet, hAdd, hFiled, hFoldered, hStores⟩ :=
    (h.stored i hi).report hWf h.standing.namesText h.foldered e
  have hGrows := Tree.Grows.filed hWf h.foldered hFoldered hFiled h.logged
  refine ⟨{ a with tree := t₂ }, ?_, ?_, hGrows⟩
  · rw [Assembly.addData, hSet]
    simp only [hAdd]
  · refine ⟨?_, h.standing.filed hFiled, hFoldered, hGrows.mem h.logged, ?_⟩
    · rw [hGrows.spares.trail_eq h.standing.isOpen]
      exact h.openNodes
    · intro k hk
      rw [h.holder_eq hGrows, hi] at hk
      obtain rfl := Option.some.inj hk
      exact hStores

-- ---------------------------------------------------------------------------
-- Single events
-- ---------------------------------------------------------------------------

/-- A started event of a project opens its node and then reports on it. -/
theorem step_opening_project (s : Span) (hPart : s.part = .project) (hTextual : s.opening.Textual) :
    a.step s.opening = (a.openNode s.node).1.addData (a.openNode s.node).2 s.opening := by
  have hKind : s.opening.kind = .projectStarted := by
    rw [s.opening_kind, hPart]
    rfl
  have hText : s.opening.projectFile.orEmpty.asText .replace = .ok s.opening.projectFile.plain := by
    rw [hTextual.projectFile.orEmpty_plain]
    rfl
  rw [step, hKind, Span.node, hPart]
  simp only [startProject, hText]
  rfl

/-- A started event of a target or a task opens its node. -/
theorem step_opening (s : Span) (hPart : s.part ≠ .project) (hTextual : s.opening.Textual) :
    a.step s.opening = .ok (a.openNode s.node).1 := by
  have hKind := s.opening_kind
  cases hCase : s.part with
  | project => exact absurd hCase hPart
  | target =>
    rw [hCase] at hKind
    rw [step, hKind, Span.node, hCase, ← hTextual.targetName.orEmpty_plain]
    rfl
  | task =>
    rw [hCase] at hKind
    rw [step, hKind, Span.node, hCase, ← hTextual.taskName.orEmpty_plain]
    rfl

/-- A part was started: its node is the next one, has no branches yet and is open. -/
structure Entered (a : Assembly) (p : Nat) (es : List Event) (s : Span) (a' : Assembly) : Prop where
  step : a.step s.opening = .ok a'
  within : a'.Within a.tree.size (s.carried es)
  grows : a.tree.Grows p none [a.tree.size] [a.tree.size] a'.tree
  row : a'.tree.row a.tree.size = some (s.node.placed a.tree.size (.int p))
  branches : a'.tree.branches a.tree.size = []
  holder : a'.tree.holder a.tree.size =
    if s.part = .project then some a.tree.size else a.tree.holder p
  task : a'.tree.taskOver a.tree.size = s.taskInside (a.tree.taskOver p)

/-- A part is started. -/
theorem Within.enter (h : a.Within p es) (s : Span) (hTextual : s.opening.Textual) :
    ∃ a', a.Entered p es s a' := by
  have hWf := h.standing.wellFormed
  have hp := h.standing.isOpen
  have hOpen := h.open s.isLogged_node s.name_node
  have hGrows := h.grows_log s.isLogged_node
  have hHolder := hWf.holder_add_size hp s.node
  have hTask := (hWf.taskOver_add_size hp s.node).trans (s.taskName?_node _)
  have hBranches := Tree.branches_add_size hp s.node
  have hRow := a.tree.row_add_size (.int p) s.node
  have hProject := s.isProject_node
  by_cases hPart : s.part = .project
  · rw [hProject, decide_eq_true hPart, if_pos rfl] at hOpen hHolder
    -- the new project is the one on which its own started event reports
    obtain ⟨a', hReport, hWithin, hFiled⟩ := hOpen.report hHolder s.opening
    have hMem := hOpen.logged
    refine ⟨a', ?_, ?_, hGrows.inside hFiled h.logged (Or.inr rfl), ?_, ?_, ?_, ?_⟩
    · rw [step_opening_project s hPart hTextual, openNode_eq h.current]
      exact hReport
    · rwa [Span.carried, if_pos hPart]
    · rw [hFiled.row _ hMem, hRow]
    · rw [hFiled.here, hBranches]
      rfl
    · rw [hOpen.holder_eq hFiled, hHolder, if_pos hPart]
    · rw [hOpen.taskOver_eq hFiled, hTask]
  · rw [hProject, decide_eq_false hPart, if_neg Bool.false_ne_true] at hOpen hHolder
    refine ⟨{ a with
      tree := a.tree.add (.int p) s.node
      openNodes := a.tree.size :: a.openNodes }, ?_, ?_, hGrows, hRow, hBranches, ?_, hTask⟩
    · rw [step_opening s hPart hTextual, openNode_eq h.current]
    · rwa [Span.carried, if_neg hPart]
    · rw [hHolder, if_neg hPart]

/-- A message of any severity is added as a message. -/
theorem step_message (hKind : e.kind.isMessage = true) : a.step e = a.addMessage e := by
  unfold step
  cases hCase : e.kind with
  | message | warning | error => rfl
  | _ =>
    rw [hCase] at hKind
    cases hKind

/-- A node that is added comes below the open one. -/
theorem Within.addNode_eq (h : a.Within p es) (n : Node) :
    a.addNode n = { a with tree := a.tree.add (.int p) n } := by
  rw [addNode, h.current]

/-- A message is logged below the open node. -/
theorem Within.message (h : a.Within p es) (hKind : e.kind.isMessage = true)
    (hTextual : e.Textual) :
    ∃ a', a.step e = .ok a' ∧ a'.Within p es ∧
      a.tree.Grows p none [a.tree.size] [a.tree.size] a'.tree ∧
      a'.tree.MessageAt (a.tree.taskOver p) p a.tree.size e := by
  have hStep : a.step e = .ok (a.addNode (e.messageNode (a.tree.taskOver p))) := by
    rw [step_message hKind, addMessage, Event.messageNode]
    cases e.isCommandLine with
    | false => rfl
    | true =>
      obtain ⟨task, hTask, hName⟩ := h.standing.enclosing_taskOver
      rw [if_pos rfl, h.current]
      simp only [hTask, hName, hTextual.taskName.orElse_eq]
      rfl
  rw [h.addNode_eq] at hStep
  exact ⟨_, hStep, h.log (e.isLogged_messageNode _) (e.name_messageNode _),
    h.grows_log (e.isLogged_messageNode _), Tree.row_add_size _ _ _⟩

/-- Late data of either kind is added late. -/
theorem step_data (hKind : e.kind.isData = true) : a.step e = a.addLate e := by
  unfold step
  cases hCase : e.kind with
  | custom | status => rfl
  | _ =>
    rw [hCase] at hKind
    cases hKind

/-- An event without properties and items reports nothing. -/
theorem Within.append_empty (h : a.Within p es)
    (hEmpty : (e.properties.isEmpty && e.items.isEmpty) = true) : a.Within p (es ++ [e]) := by
  rw [Bool.and_eq_true, List.isEmpty_iff, List.isEmpty_iff] at hEmpty
  refine ⟨h.openNodes, h.standing, h.foldered, h.logged, fun i hi => ?_⟩
  obtain ⟨hProject, hShelf⟩ := h.stored i hi
  refine ⟨hProject, ?_⟩
  rw [List.flatMap_append, List.flatMap_singleton, List.flatMap_append, List.flatMap_singleton,
    hEmpty.1, hEmpty.2, List.append_nil, List.append_nil]
  exact hShelf

/-- An event reports late on the project around the open node, if there is one. -/
theorem Within.data (h : a.Within p es) (hKind : e.kind.isData = true) :
    ∃ a', a.step e = .ok a' ∧ a'.Within p (es ++ [e]) ∧
      a.tree.Grows p (a.tree.holder p) [] [] a'.tree := by
  rw [step_data hKind, addLate]
  cases hEmpty : e.properties.isEmpty && e.items.isEmpty with
  | true => exact ⟨a, rfl, h.append_empty hEmpty, Tree.Grows.refl _ _ _⟩
  | false =>
    have hEnclosing := h.standing.enclosing_holder
    rw [if_neg Bool.false_ne_true, h.current]
    cases hHolder : a.tree.holder p with
    | none =>
      -- outside all projects a report is dropped
      rw [hHolder] at hEnclosing
      simp only [hEnclosing]
      refine ⟨a, rfl, ?_, Tree.Grows.refl _ _ _⟩
      refine ⟨h.openNodes, h.standing, h.foldered, h.logged, fun i hi => ?_⟩
      rw [hHolder] at hi
      cases hi
    | some i =>
      obtain ⟨n, hn⟩ := Tree.exists_node (h.stored i hHolder).lt_size
      have hIndex : n.index = i := h.standing.wellFormed.index_of_nodes hn
      rw [hHolder, Option.bind_some, hn] at hEnclosing
      simp only [hEnclosing, hIndex]
      exact h.report hHolder e

/-- The finished event of a part closes the innermost open node. -/
theorem step_closing (s : Span) : a.step s.closing = .ok (a.closeNode s.closing) := by
  have hKind := s.closing_kind
  unfold step
  cases hPart : s.part with
  | project | target | task =>
    rw [hPart] at hKind
    rw [hKind]
    rfl

/-- The open node finishes. What the project around the node above stores is up to the caller. -/
theorem Within.leave (h : a.Within j es) (hp : a.tree.parent? j = some p)
    (hLogged : p ∈ a.tree.select Node.isLogged) {es' : List Event}
    (hStored : ∀ i, a.tree.holder p = some i → a.tree.Stores i es') (e : Event) :
    (a.closeNode e).Within p es' ∧
      (a.closeNode e).tree = a.tree.change j (Tree.finishing e.succeeded) := by
  have hWf := h.standing.wellFormed
  have hKeeps := Tree.keeps_finishing e.succeeded
  have hAbove := h.standing.above hp
  have hClose : a.closeNode e = { a.finishNode j e with openNodes := p :: a.tree.trail p } := by
    rw [closeNode, h.openNodes, hWf.trail_eq_cons hp]
  have hTree : (a.closeNode e).tree = a.tree.change j (Tree.finishing e.succeeded) := by
    rw [hClose]
    rfl
  refine ⟨⟨?_, ?_, ?_, ?_, ?_⟩, hTree⟩
  · rw [hTree, Tree.trail_change hKeeps, hClose]
  · rw [hTree]
    exact hAbove.finishing e.succeeded j
  · rw [hTree]
    exact h.foldered.change hKeeps j
  · rwa [hTree, Tree.select_change hKeeps fun _ => rfl]
  · intro i hi
    rw [hTree] at hi ⊢
    rw [(Tree.spares_finishing e.succeeded a.tree j).holder_eq hWf hAbove.isOpen] at hi
    exact (hStored i hi).finishing hWf e.succeeded j

end Assembly

end BuildDigest
