import BuildDigest.Proofs.Assembly.Standing
import BuildDigest.Proofs.Folders.Shelf
import BuildDigest.Proofs.Ledger.Basic

/-!
# Trees and ledgers

A tree represents a ledger when its projects, in the order in which they arrived,
hold what the entries of the ledger say, and the way up from the innermost open
node passes the frames of the ledger.

* `EntryAt`, `CallAt` — a project holds an entry, a command line is a call.
* `Stacked` — the way up passes frames.
* `Represents` — the relation.
* `Stacked.enclosing_project`, `Stacked.enclosing_task` — what a search upwards finds is what the
  frames say.
-/

namespace BuildDigest

open Ledger (Call Entry Frame)

def Node.isProject (n : Node) : Bool :=
  n.kind = .project

def Node.isLine (n : Node) : Bool :=
  n.kind = .commandLine

def Node.targetName? (n : Node) : Option String :=
  if n.kind = .target then
    match n.name with
    | .text s => some s
    | _ => none
  else none

namespace Tree

variable {t t' : Tree} {S : Nat → Prop} {i j d : Nat}

def isProjectAt (t : Tree) (j : Nat) : Bool :=
  (t.row j).any Node.isProject

def targetNameAt (t : Tree) (j : Nat) : Option String :=
  (t.row j).bind Node.targetName?

/-- The innermost project above a node. -/
def projectAbove (t : Tree) (d : Nat) : Option Nat :=
  (t.trail d).find? t.isProjectAt

/-- The names of the targets above a node inside the innermost project. -/
def targetsAround (t : Tree) (d : Nat) : List String :=
  ((t.trail d).takeWhile fun j => !t.isProjectAt j).filterMap t.targetNameAt

/-- The command lines whose innermost project is a given one. -/
def linesOf (t : Tree) (i : Nat) : List Nat :=
  (t.select Node.isLine).filter fun d => t.projectAbove d = some i

/-- A node is the command line of a call. A line that counts as empty is the empty text. -/
def CallAt (t : Tree) (d : Nat) (c : Call) : Prop :=
  c.targets = t.targetsAround d ∧ ∃ n, t.row d = some n ∧ n.kind = .commandLine ∧
    n.name = .text c.task ∧ n.value.orEmpty = .text c.text

/-- A node is the project of an entry, as far as it shows in the node itself. -/
def ProjectAt (t : Tree) (i : Nat) (b : Entry) : Prop :=
  ∃ n, t.row i = some n ∧ n.kind = .project ∧ n.projectFile = .text b.file ∧
    n.finished.holds = b.outcome.isSome ∧ ∀ ok, b.outcome = some ok → n.succeeded.holds = ok

/-- A project holds an entry. -/
structure EntryAt (t : Tree) (i : Nat) (b : Entry) : Prop where
  project : t.ProjectAt i b
  shelf : t.Shelf i (Filing.properties b.properties) (Filing.items b.items)
  calls : List.Forall₂ t.CallAt (t.linesOf i) b.calls

/-- A node is an open frame. -/
def FrameAt (t : Tree) (j : Nat) : Frame → Prop
  | .project k => (t.select Node.isProject)[k]? = some j
  | .target name => ∃ n, t.row j = some n ∧ n.kind = .target ∧ n.name = .text name
  | .task name => ∃ n, t.row j = some n ∧ n.kind = .task ∧ n.name = .text name

/-- The way up from a node, the root left out, passes frames. -/
inductive Stacked (t : Tree) : Nat → List Frame → Prop
  | root : Stacked t 0 []
  | push {j p : Nat} {frame : Frame} {frames : List Frame} (parent : t.parent? j = some p)
      (here : t.FrameAt j frame) (above : Stacked t p frames) : Stacked t j (frame :: frames)

/-- A tree with its innermost open node represents a ledger. -/
structure Represents (t : Tree) (i : Nat) (l : Ledger) : Prop where
  standing : t.Standing i
  entries : List.Forall₂ t.EntryAt (t.select Node.isProject) l.entries
  stacked : t.Stacked i l.frames

-- ---------------------------------------------------------------------------
-- What later nodes leave alone
-- ---------------------------------------------------------------------------

/-- What is taken from the front depends on the test only at the entries. -/
theorem takeWhile_congr {α : Type} {p q : α → Bool} {xs : List α} (h : ∀ x ∈ xs, p x = q x) :
    xs.takeWhile p = xs.takeWhile q := by
  induction xs with
  | nil => rfl
  | cons x xs ih =>
    rw [List.forall_mem_cons] at h
    rw [List.takeWhile_cons, List.takeWhile_cons, h.1, ih h.2]

theorem isProject_congr (n n' : Node) (h : n'.label = n.label) : n'.isProject = n.isProject := by
  rw [Node.isProject, Node.isProject, (Node.label_eq_iff.mp h).1]

theorem isLine_congr (n n' : Node) (h : n'.label = n.label) : n'.isLine = n.isLine := by
  rw [Node.isLine, Node.isLine, (Node.label_eq_iff.mp h).1]

theorem targetName?_congr (n n' : Node) (h : n'.label = n.label) :
    n'.targetName? = n.targetName? := by
  obtain ⟨hKind, hName, _, _⟩ := Node.label_eq_iff.mp h
  rw [Node.targetName?, Node.targetName?, hKind, hName]

theorem isProjectAt_iff : t.isProjectAt j = true ↔ ∃ n, t.row j = some n ∧ n.kind = .project := by
  simp [isProjectAt, Node.isProject, Option.any_eq_true]

/-- A project is there. -/
theorem lt_size_of_isProjectAt (h : t.isProjectAt j = true) : j < t.size := by
  obtain ⟨n, hRow, _⟩ := isProjectAt_iff.mp h
  exact lt_size_of_row hRow

/-- What is added around a node leaves whether it is a project. -/
theorem Spares.isProjectAt_eq (h : Spares S t t') (hj : j < t.size) :
    t'.isProjectAt j = t.isProjectAt j := by
  obtain ⟨n, hRow⟩ := exists_row hj
  obtain ⟨n', hRow', hLabel, _⟩ := h.row j n hRow
  rw [isProjectAt, isProjectAt, hRow, hRow', Option.any_some, Option.any_some,
    isProject_congr n n' hLabel]

/-- What is added around a node leaves its name as a target. -/
theorem Spares.targetNameAt_eq (h : Spares S t t') (hj : j < t.size) :
    t'.targetNameAt j = t.targetNameAt j := by
  obtain ⟨n, hRow⟩ := exists_row hj
  obtain ⟨n', hRow', hLabel, _⟩ := h.row j n hRow
  rw [targetNameAt, targetNameAt, hRow, hRow', Option.bind_some, Option.bind_some,
    targetName?_congr n n' hLabel]

theorem WellFormed.lt_size_of_mem_trail (hWf : t.WellFormed) (hd : d < t.size)
    (hj : j ∈ t.trail d) : j < t.size :=
  Nat.lt_trans (hWf.lt_of_mem_trail hj) hd

/-- Nodes that are open are there. -/
theorem WellFormed.lt_size_of_mem_open (hWf : t.WellFormed) (hd : d < t.size)
    (hj : j ∈ d :: t.trail d) : j < t.size := by
  rcases List.mem_cons.mp hj with rfl | hj
  · exact hd
  · exact hWf.lt_size_of_mem_trail hd hj

/-- The innermost project above a node stays the same. -/
theorem Spares.projectAbove_eq (h : Spares S t t') (hWf : t.WellFormed) (hd : d < t.size) :
    t'.projectAbove d = t.projectAbove d := by
  rw [projectAbove, projectAbove, h.trail_eq hd]
  exact List.find?_congr fun j hj => h.isProjectAt_eq (hWf.lt_size_of_mem_trail hd hj)

/-- The targets around a node stay the same. -/
theorem Spares.targetsAround_eq (h : Spares S t t') (hWf : t.WellFormed) (hd : d < t.size) :
    t'.targetsAround d = t.targetsAround d := by
  have hTake : (t.trail d).takeWhile (fun j => !t'.isProjectAt j) =
      (t.trail d).takeWhile fun j => !t.isProjectAt j := by
    refine takeWhile_congr fun j hj => ?_
    rw [h.isProjectAt_eq (hWf.lt_size_of_mem_trail hd hj)]
  rw [targetsAround, targetsAround, h.trail_eq hd, hTake]
  refine List.filterMap_congr fun j hj => ?_
  exact h.targetNameAt_eq (hWf.lt_size_of_mem_trail hd (List.takeWhile_subset _ hj))

/-- A command line that stays as it is stays the command line of its call. -/
theorem CallAt.spares {c : Call} (hCall : t.CallAt d c) (h : Spares S t t') (hWf : t.WellFormed)
    (hRow : ∀ n, t.row d = some n → n.kind = .commandLine → t'.row d = some n) :
    t'.CallAt d c := by
  obtain ⟨hTargets, n, hn, hKind, hRest⟩ := hCall
  refine ⟨?_, n, hRow n hn hKind, hKind, hRest⟩
  rw [h.targetsAround_eq hWf (lt_size_of_row hn), hTargets]

/-- A node that is an open frame stays that frame while projects are only added behind the
others. -/
theorem FrameAt.spares {frame : Frame} (hFrame : t.FrameAt j frame) (h : Spares S t t')
    (hProjects : t.select Node.isProject <+: t'.select Node.isProject) : t'.FrameAt j frame := by
  cases frame with
  | project k =>
    obtain ⟨more, hMore⟩ := hProjects
    have hFrame : (t.select Node.isProject)[k]? = some j := hFrame
    obtain ⟨hk, _⟩ := List.getElem?_eq_some_iff.mp hFrame
    rw [FrameAt, ← hMore, List.getElem?_append_left hk, hFrame]
  | target name =>
    obtain ⟨n, hRow, hKind, hName⟩ := hFrame
    obtain ⟨n', hRow', hLabel, _⟩ := h.row j n hRow
    obtain ⟨hKind', hName', _, _⟩ := Node.label_eq_iff.mp hLabel
    exact ⟨n', hRow', hKind'.trans hKind, hName'.trans hName⟩
  | task name =>
    obtain ⟨n, hRow, hKind, hName⟩ := hFrame
    obtain ⟨n', hRow', hLabel, _⟩ := h.row j n hRow
    obtain ⟨hKind', hName', _, _⟩ := Node.label_eq_iff.mp hLabel
    exact ⟨n', hRow', hKind'.trans hKind, hName'.trans hName⟩

/-- The way up passes the same frames while projects are only added behind the others. -/
theorem Stacked.spares {frames : List Frame} (hStacked : t.Stacked i frames) (h : Spares S t t')
    (hProjects : t.select Node.isProject <+: t'.select Node.isProject) : t'.Stacked i frames := by
  induction hStacked with
  | root => exact Stacked.root
  | push hParent hHere _ ih =>
    refine Stacked.push ?_ (hHere.spares h hProjects) ih
    rw [h.parent?_eq (lt_size_of_parent? hParent), hParent]

theorem Stacked.spares_of_eq {frames : List Frame} (hStacked : t.Stacked i frames)
    (h : Spares S t t') (hProjects : t'.select Node.isProject = t.select Node.isProject) :
    t'.Stacked i frames := by
  have hPrefix : t.select Node.isProject <+: t'.select Node.isProject := ⟨[], by simp [hProjects]⟩
  exact hStacked.spares h hPrefix

-- ---------------------------------------------------------------------------
-- Searches upwards
-- ---------------------------------------------------------------------------

theorem isProjectAt_of_mem_select (hj : j ∈ t.select Node.isProject) : t.isProjectAt j = true := by
  obtain ⟨n, hRow, hProject⟩ := mem_select.mp hj
  rw [isProjectAt, hRow]
  exact hProject

/-- A frame has an entry exactly if its node is a project. -/
theorem FrameAt.isProjectAt_eq {frame : Frame} (h : t.FrameAt j frame) :
    t.isProjectAt j = frame.entry?.isSome := by
  cases frame with
  | project k => exact isProjectAt_of_mem_select (List.mem_of_getElem? h)
  | target name =>
    obtain ⟨n, hRow, hKind, _⟩ := h
    rw [isProjectAt, hRow, Option.any_some, Node.isProject, hKind]
    rfl
  | task name =>
    obtain ⟨n, hRow, hKind, _⟩ := h
    rw [isProjectAt, hRow, Option.any_some, Node.isProject, hKind]
    rfl

/-- A frame has a target name exactly if its node is a target of that name. -/
theorem FrameAt.targetNameAt_eq {frame : Frame} (h : t.FrameAt j frame) :
    t.targetNameAt j = frame.targetName? := by
  unfold targetNameAt
  cases frame with
  | project k =>
    obtain ⟨n, hRow, hProject⟩ := mem_select.mp (List.mem_of_getElem? h)
    have hKind : n.kind = .project := of_decide_eq_true hProject
    rw [hRow, Option.bind_some, Node.targetName?, hKind]
    rfl
  | target name =>
    obtain ⟨n, hRow, hKind, hName⟩ := h
    rw [hRow, Option.bind_some, Node.targetName?, hKind, hName]
    rfl
  | task name =>
    obtain ⟨n, hRow, hKind, hName⟩ := h
    rw [hRow, Option.bind_some, Node.targetName?, hKind]
    rfl

/-- Nothing is above the root. -/
theorem Standing.trail_zero (h : t.Standing i) : t.trail 0 = [] := by
  rw [List.eq_nil_iff_forall_not_mem]
  intro j hj
  have := h.wellFormed.lt_of_mem_trail hj
  omega

theorem Standing.above (h : t.Standing j) {p : Nat} (hp : t.parent? j = some p) :
    t.Standing p := by
  apply h.climb
  rw [h.wellFormed.trail_eq_cons hp]
  exact List.mem_cons_of_mem j (List.mem_cons_self ..)

/-- Every open node was logged. -/
theorem Stacked.isLogged {frames : List Frame} (h : t.Stacked i frames)
    (hStanding : t.Standing i) : ∃ n, t.row i = some n ∧ n.kind.isFiling = false := by
  cases h with
  | root =>
    obtain ⟨n, hRow, hKind⟩ := hStanding.root
    exact ⟨n, hRow, by rw [hKind]; rfl⟩
  | @push _ _ frame _ _ hHere _ =>
    cases frame with
    | project k =>
      obtain ⟨n, hRow, hProject⟩ := mem_select.mp (List.mem_of_getElem? hHere)
      have hKind : n.kind = .project := of_decide_eq_true hProject
      exact ⟨n, hRow, by rw [hKind]; rfl⟩
    | target name =>
      obtain ⟨n, hRow, hKind, _⟩ := hHere
      exact ⟨n, hRow, by rw [hKind]; rfl⟩
    | task name =>
      obtain ⟨n, hRow, hKind, _⟩ := hHere
      exact ⟨n, hRow, by rw [hKind]; rfl⟩

/-- The innermost project at or above an open node is that of the innermost project frame. -/
theorem Stacked.find?_project {frames : List Frame} (h : t.Stacked i frames)
    (hStanding : t.Standing i) :
    (i :: t.trail i).find? t.isProjectAt =
      (Ledger.innermost frames).bind fun k => (t.select Node.isProject)[k]? := by
  induction h with
  | root =>
    obtain ⟨n, hRow, hKind⟩ := hStanding.root
    have hRoot : t.isProjectAt 0 = false := by
      rw [isProjectAt, hRow, Option.any_some, Node.isProject, hKind]
      rfl
    rw [List.find?_cons, hRoot, hStanding.trail_zero]
    rfl
  | @push j p frame frames hParent hHere _ ih =>
    rw [List.find?_cons, hHere.isProjectAt_eq, hStanding.wellFormed.trail_eq_cons hParent]
    cases frame with
    | project k => exact (show some j = _ from Eq.symm hHere)
    | target name => exact ih (hStanding.above hParent)
    | task name => exact ih (hStanding.above hParent)

theorem Stacked.here {frame : Frame} {frames : List Frame} (h : t.Stacked i (frame :: frames)) :
    t.FrameAt i frame := by
  cases h with
  | push _ hHere _ => exact hHere

/-- The innermost project among the frames is a project of the tree. -/
theorem Stacked.exists_project {frames : List Frame} (h : t.Stacked i frames) {k : Nat}
    (hk : Ledger.innermost frames = some k) : ∃ j, (t.select Node.isProject)[k]? = some j := by
  induction h with
  | root => cases hk
  | @push j p frame frames _ hHere _ ih =>
    cases frame with
    | project k' =>
      cases hk
      exact ⟨j, hHere⟩
    | target name => exact ih hk
    | task name => exact ih hk

/-- The targets at or above an open node are those of the frames, up to a project. -/
theorem Stacked.targets {frames : List Frame} (h : t.Stacked i frames)
    (hStanding : t.Standing i) :
    ((i :: t.trail i).takeWhile fun j => !t.isProjectAt j).filterMap t.targetNameAt =
      Ledger.openTargets frames := by
  induction h with
  | root =>
    obtain ⟨n, hRow, hKind⟩ := hStanding.root
    have hRoot : t.isProjectAt 0 = false := by
      rw [isProjectAt, hRow, Option.any_some, Node.isProject, hKind]
      rfl
    have hName : t.targetNameAt 0 = none := by
      rw [targetNameAt, hRow, Option.bind_some, Node.targetName?, hKind]
      rfl
    simp [hRoot, hStanding.trail_zero, hName, Ledger.openTargets]
  | @push j p frame frames hParent hHere _ ih =>
    have ih := ih (hStanding.above hParent)
    have hProject := hHere.isProjectAt_eq
    have hName := hHere.targetNameAt_eq
    rw [hStanding.wellFormed.trail_eq_cons hParent]
    cases frame with
    | project k => rw [List.takeWhile_cons_of_neg (by simp [hProject, Frame.entry?])]; rfl
    | target name =>
      rw [List.takeWhile_cons_of_pos (by simp [hProject, Frame.entry?]),
        List.filterMap_cons_some hName, ih]
      rfl
    | task name =>
      rw [List.takeWhile_cons_of_pos (by simp [hProject, Frame.entry?]),
        List.filterMap_cons_none hName, ih]
      rfl

/-- A search by kind among nodes is a search among their places. -/
theorem find?_nodesAt {kind : Node.Kind} {js : List Nat} (hjs : ∀ j ∈ js, j < t.size) :
    (t.nodesAt js).find? (·.kind = kind) =
      (js.find? fun j => (t.row j).any (·.kind = kind)).bind (t.nodes[·]?) := by
  induction js with
  | nil => rfl
  | cons j js ih =>
    rw [List.forall_mem_cons] at hjs
    obtain ⟨n, hn⟩ := exists_node hjs.1
    have hRow : t.row j = some n.bare := by rw [row, hn, Option.map_some]
    have hKind : n.bare.kind = n.kind := rfl
    rw [nodesAt_cons_of_nodes hn, List.find?_cons, List.find?_cons, hRow, Option.any_some, hKind]
    cases decide (n.kind = kind) with
    | true => exact hn.symm
    | false => exact ih hjs.2

theorem Standing.lt_size_of_open (h : t.Standing i) : ∀ j ∈ i :: t.trail i, j < t.size :=
  fun _ hj => h.wellFormed.lt_size_of_mem_open h.isOpen hj

/-- The enclosing project of the innermost open node is that of the innermost project frame. -/
theorem Stacked.enclosing_project {frames : List Frame} (h : t.Stacked i frames)
    (hStanding : t.Standing i) :
    t.enclosing (.int i) .project =
      .ok (((Ledger.innermost frames).bind fun k => (t.select Node.isProject)[k]?).bind
        (t.nodes[·]?)) := by
  rw [hStanding.wellFormed.enclosing_eq_find? hStanding.isOpen, find?_nodesAt
    hStanding.lt_size_of_open, ← h.find?_project hStanding]
  rfl

/-- The enclosing task of the innermost open node has the name of the innermost task frame. -/
theorem Stacked.enclosing_task {frames : List Frame} (h : t.Stacked i frames)
    (hStanding : t.Standing i) :
    ∃ task, t.enclosing (.int i) .task = .ok task ∧
      (task.map (·.name)).getD (.text "") = .text (Ledger.openTask frames) := by
  refine ⟨_, hStanding.wellFormed.enclosing_eq_find? hStanding.isOpen .task, ?_⟩
  induction h with
  | root =>
    obtain ⟨n, hRow, hKind⟩ := hStanding.root
    obtain ⟨n, hn, rfl⟩ := row_eq_some_iff.mp hRow
    have hKind : n.kind = .build := hKind
    rw [hStanding.trail_zero, nodesAt_cons_of_nodes hn, List.find?_cons, hKind]
    rfl
  | @push j p frame frames hParent hHere _ ih =>
    have ih := ih (hStanding.above hParent)
    obtain ⟨n, hn⟩ := exists_node hStanding.isOpen
    have hRow : t.row j = some n.bare := by rw [row, hn, Option.map_some]
    rw [nodesAt_cons_of_nodes hn, hStanding.wellFormed.trail_eq_cons hParent, List.find?_cons]
    cases frame with
    | project k =>
      obtain ⟨m, hRow', hProject⟩ := mem_select.mp (List.mem_of_getElem? hHere)
      rw [hRow] at hRow'
      obtain rfl := Option.some.inj hRow'
      have hKind : n.kind = .project := of_decide_eq_true hProject
      rw [hKind]
      exact ih
    | target name =>
      obtain ⟨m, hRow', hKind, _⟩ := hHere
      rw [hRow] at hRow'
      obtain rfl := Option.some.inj hRow'
      have hKind : n.kind = .target := hKind
      rw [hKind]
      exact ih
    | task name =>
      obtain ⟨m, hRow', hKind, hName⟩ := hHere
      rw [hRow] at hRow'
      obtain rfl := Option.some.inj hRow'
      have hKind : n.kind = .task := hKind
      have hName : n.name = .text name := hName
      rw [hKind]
      exact hName

end Tree

end BuildDigest
