import BuildDigest.Proofs.Assembly.Steps
import BuildDigest.Proofs.Event.Fits

/-!
# The tree represents the ledger

After any events the tree of a build represents the ledger that they come to.
The fields of the events that are used as texts have to be such that they can be;
then no event is at fault. Events whose text fields are texts or absent are so.

* `Assembly.Represents` — an assembly represents a ledger.
* `Assembly.Represents.step_of_fits`, `Assembly.Represents.steps_of_fits` — one event, and any
  events.
-/

namespace BuildDigest

open Ledger (Call Entry Frame)

namespace Value

theorem IsTextual.orEmpty_plain {v : Value} (h : v.IsTextual) : v.orEmpty = .text v.plain :=
  h.readsAsText.orEmpty_eq

/-- A text field, or what stands in for it when it is absent or empty. -/
theorem IsTextual.orElse_eq {v : Value} (h : v.IsTextual) (s : String) :
    Assembly.orElse v (.text s) = .text (if v.plain = "" then s else v.plain) :=
  h.readsAsText.orElse_eq s

end Value

namespace Ledger

/-- An event that reports nothing adds nothing to the ledger. -/
theorem amend_addData_of_isEmpty (l : Ledger) {e : Event}
    (hEmpty : (e.properties.isEmpty && e.items.isEmpty) = true) : l.amend (·.addData e) = l := by
  rw [Bool.and_eq_true, List.isEmpty_iff, List.isEmpty_iff] at hEmpty
  have hSame : (fun b : Entry => b.addData e) = fun b => b := by
    funext b
    rw [Entry.addData, hEmpty.1, hEmpty.2, List.append_nil, List.append_nil]
  rw [hSame, amend_id]

end Ledger

namespace Assembly

variable {a : Assembly} {l : Ledger}

/-- An assembly with an open node whose tree represents a ledger. -/
structure Opened (a : Assembly) (i : Nat) (l : Ledger) : Prop where
  openNodes : a.openNodes = i :: a.tree.trail i
  tree : a.tree.Represents i l

/-- An assembly represents a ledger: nothing was assembled and noted, or the tree does. -/
def Represents (a : Assembly) (l : Ledger) : Prop :=
  (a.openNodes = [] ∧ a.tree = .empty ∧ l = {}) ∨ ∃ i, a.Opened i l

theorem represents_start : Represents {} {} :=
  Or.inl ⟨rfl, rfl, rfl⟩

/-- What an assembly becomes when it needs an open node: the root comes if there is none, and the
ledger is the same. -/
theorem Represents.current (h : a.Represents l) : ∃ a' i, a.current = (a', i) ∧ a'.Opened i l := by
  rcases h with ⟨hNone, hEmpty, rfl⟩ | ⟨i, hOpened⟩
  · have hTree := Tree.Represents.root (n := { kind := .build, name := .text "Build" }) rfl ⟨_, rfl⟩
    refine ⟨{ a with tree := _, openNodes := [0] }, 0, ?_, ?_, hTree⟩
    · rw [Assembly.current, hNone, hEmpty]
      rfl
    · exact congrArg (0 :: ·) hTree.standing.trail_zero.symm
  · refine ⟨a, i, ?_, hOpened⟩
    rw [Assembly.current, hOpened.openNodes]

theorem Opened.current {i : Nat} (h : a.Opened i l) : a.current = (a, i) := by
  rw [Assembly.current, h.openNodes]

theorem Opened.represents {i : Nat} (h : a.Opened i l) : a.Represents l :=
  Or.inr ⟨i, h⟩

/-- What is reported on an open project goes to its entry. -/
theorem Opened.addData {i j k : Nat} (h : a.Opened i l)
    (hj : (a.tree.select Node.isProject)[k]? = some j) (e : Event) :
    ∃ a', a.addData j e = .ok a' ∧
      a'.Opened i { l with entries := l.entries.modify k (·.addData e) } := by
  obtain ⟨t₁, t₂, hSet, hAdd, hTrail, hTree⟩ := h.tree.data hj e
  refine ⟨{ a with tree := t₂ }, ?_, ?_, hTree⟩
  · rw [Assembly.addData, hSet]
    simp only [hAdd]
  · rw [hTrail]
    exact h.openNodes

/-- Opening a node puts it below the innermost open one. -/
theorem openNode_eq {a' : Assembly} {i : Nat} (hCurrent : a.current = (a', i)) (n : Node) :
    a.openNode n = ({ a' with
      tree := a'.tree.add (.int i) n
      openNodes := a'.tree.size :: a'.openNodes }, a'.tree.size) := by
  rw [openNode, hCurrent]

/-- A node opened in the tree is opened in the assembly. -/
theorem Opened.add_open {i : Nat} {n : Node} {l' : Ledger} (h : a.Opened i l)
    (hTree : (a.tree.add (.int i) n).Represents a.tree.size l') :
    ({ a with tree := a.tree.add (.int i) n, openNodes := a.tree.size :: a.openNodes }
      : Assembly).Opened a.tree.size l' where
  openNodes := by
    rw [Tree.trail_add_size h.tree.standing.isOpen, h.openNodes]
  tree := hTree

/-- A node logged in the tree is logged in the assembly. -/
theorem Opened.add {i : Nat} {n : Node} {l' : Ledger} (h : a.Opened i l)
    (hTree : (a.tree.add (.int i) n).Represents i l') :
    ({ a with tree := a.tree.add (.int i) n } : Assembly).Opened i l' where
  openNodes := by
    rw [Tree.trail_add_of_lt h.tree.standing.isOpen]
    exact h.openNodes
  tree := hTree

def lineNode (c : Call) (line : Value) : Node :=
  { kind := .commandLine, name := .text c.task, value := line }

def projectNode (file : String) : Node :=
  { kind := .project, name := .text (Path.fileName file), projectFile := .text file }

/-- A project that starts is a new entry of the ledger, with what its event reports, and its frame
is the innermost one. -/
theorem Represents.startProject (h : a.Represents l) {e : Event}
    (hFile : e.projectFile.ReadsAsText) :
    ∃ a', a.startProject e = .ok a' ∧
      a'.Represents { entries := l.entries ++ [.ofEvent e],
                      frames := .project l.entries.length :: l.frames } := by
  obtain ⟨a₁, i, hCurrent, hOpened⟩ := h.current
  have hText : e.projectFile.orEmpty.asText .replace = .ok e.projectFile.plain := by
    rw [hFile.orEmpty_eq]
    rfl
  have hTree := hOpened.tree.enterProject (n := projectNode e.projectFile.plain) rfl ⟨_, rfl⟩ rfl rfl
  have hOpened₂ := hOpened.add_open hTree
  -- the innermost open node is the project, which has the last entry
  have hPlace : ((a₁.tree.add (.int i) (projectNode e.projectFile.plain)).select
      Node.isProject)[l.entries.length]? = some a₁.tree.size := hTree.stacked.here
  obtain ⟨a', hData, hOpened'⟩ := hOpened₂.addData hPlace e
  refine ⟨a', ?_, ?_⟩
  · rw [Assembly.startProject, hText]
    simp only [openNode_eq hCurrent]
    exact hData
  · have hEntries := Ledger.modify_append_right l.entries [{ file := e.projectFile.plain }] 0
      (·.addData e)
    rw [Nat.add_zero] at hEntries
    simp only [hEntries] at hOpened'
    exact hOpened'.represents

/-- A target or task that starts is a new frame of the ledger. -/
theorem Represents.openNode (h : a.Represents l) {n : Node} {frame : Frame}
    (hLogged : n.kind.isFiling = false) (hName : ∃ s, n.name = .text s)
    (hProject : n.isProject = false) (hLine : n.isLine = false)
    (hFrame : ∀ (t : Tree) i, (t.add (.int i) n).FrameAt t.size frame) :
    (a.openNode n).1.Represents (l.enter frame) := by
  obtain ⟨a₁, i, hCurrent, hOpened⟩ := h.current
  rw [openNode_eq hCurrent]
  exact (hOpened.add_open
    (hOpened.tree.enter hLogged hName hProject hLine (hFrame a₁.tree i))).represents

/-- What finishes is the innermost open node, which is the innermost frame. At the root there is
nothing to finish, in the ledger as in the tree. -/
theorem Represents.closeNode (h : a.Represents l) (e : Event) :
    (a.closeNode e).Represents (l.leave e.succeeded.holds) := by
  rcases h with ⟨hNone, hEmpty, rfl⟩ | ⟨i, hOpened⟩
  · rw [Assembly.closeNode, hNone]
    exact Or.inl ⟨hNone, hEmpty, rfl⟩
  · have hStacked := hOpened.tree.stacked
    cases hParent : a.tree.parent? i with
    | none =>
      -- the root stays open, and no frame is open
      have hTop : a.openNodes = [i] := by
        rw [hOpened.openNodes, Tree.trail_eq_nil hParent]
      have hFrames : l.frames = [] := by
        generalize l.frames = frames at hStacked
        cases hStacked with
        | root => rfl
        | push hp _ _ =>
          rw [hParent] at hp
          cases hp
      have hLeave : l.leave e.succeeded.holds = l := by
        rw [Ledger.leave, hFrames]
      rw [Assembly.closeNode, hTop, hLeave]
      exact hOpened.represents
    | some p =>
      have hTrail := hOpened.tree.standing.wellFormed.trail_eq_cons hParent
      rw [Assembly.closeNode, hOpened.openNodes, hTrail]
      refine Or.inr ⟨p, ?_, hOpened.tree.leave hParent e.succeeded⟩
      exact congrArg (p :: ·) (Tree.trail_change (Tree.keeps_finishing _) a.tree i p).symm

/-- The end of the build leaves no frame. -/
theorem Represents.endBuild (h : a.Represents l) (e : Event) :
    (a.endBuild e).Represents { l with frames := [] } := by
  obtain ⟨a₁, i, hCurrent, hOpened⟩ := h.current
  have hTree := hOpened.tree.endBuild e.succeeded
  rw [Assembly.endBuild, hCurrent]
  exact Or.inr ⟨0, congrArg (0 :: ·) hTree.standing.trail_zero.symm, hTree⟩

/-- A message that carries a command line is a call of the innermost project. Only then its task and
line are used as texts. -/
theorem Represents.addMessage (h : a.Represents l) {e : Event}
    (hTask : e.isCommandLine = true → e.taskName.ReadsAsText)
    (hLine : e.isCommandLine = true → e.commandLine.ReadsAsText) :
    ∃ a', a.addMessage e = .ok a' ∧
      a'.Represents
        (if e.isCommandLine then l.amend (·.addCall (Ledger.callOf l.frames e)) else l) := by
  obtain ⟨a₁, i, hCurrent, hOpened⟩ := h.current
  cases hGiven : e.isCommandLine with
  | false =>
    -- the ledger takes no note of a message without a command line
    refine ⟨_, by rw [Assembly.addMessage, hGiven]; rfl, ?_⟩
    rw [Assembly.addNode, hCurrent]
    exact (hOpened.add (hOpened.tree.log rfl ⟨_, rfl⟩ rfl (Or.inl rfl))).represents
  | true =>
    obtain ⟨task, hEnclosing, hOpen⟩ := hOpened.tree.stacked.enclosing_task hOpened.tree.standing
    have hText := (hLine hGiven).orEmpty_eq
    have hName := (hTask hGiven).orElse_eq (Ledger.openTask l.frames)
    refine ⟨a₁.addNode (lineNode (Ledger.callOf l.frames e) e.commandLine), ?_, ?_⟩
    · rw [Assembly.addMessage, hGiven, if_pos rfl, hCurrent]
      simp only [hEnclosing, hOpen, hName]
      rfl
    · rw [if_pos rfl, Ledger.amend, Assembly.addNode, hOpened.current]
      -- outside all projects a line stands in the tree and in no entry
      cases hInnermost : Ledger.innermost l.frames with
      | none =>
        exact (hOpened.add
          (hOpened.tree.log rfl ⟨_, rfl⟩ rfl (Or.inr hInnermost))).represents
      | some k =>
        exact (hOpened.add (hOpened.tree.line hInnermost rfl rfl rfl hText)).represents

/-- Late data goes to the entry of the innermost project. Without one, or with nothing to report, it
goes nowhere. -/
theorem Represents.addLate (h : a.Represents l) (e : Event) :
    ∃ a', a.addLate e = .ok a' ∧ a'.Represents (l.amend (·.addData e)) := by
  cases hEmpty : e.properties.isEmpty && e.items.isEmpty with
  | true =>
    rw [l.amend_addData_of_isEmpty hEmpty]
    exact ⟨a, by rw [Assembly.addLate, hEmpty]; rfl, h⟩
  | false =>
    obtain ⟨a₁, i, hCurrent, hOpened⟩ := h.current
    have hEnclosing := hOpened.tree.stacked.enclosing_project hOpened.tree.standing
    rw [Assembly.addLate, hEmpty, if_neg Bool.false_ne_true, hCurrent, Ledger.amend]
    -- outside all projects a report is dropped
    cases hInnermost : Ledger.innermost l.frames with
    | none =>
      rw [hInnermost] at hEnclosing
      simp only [hEnclosing]
      exact ⟨a₁, rfl, hOpened.represents⟩
    | some k =>
      obtain ⟨j, hj⟩ := hOpened.tree.stacked.exists_project hInnermost
      obtain ⟨m, hRow, _⟩ := Tree.mem_select.mp (List.mem_of_getElem? hj)
      obtain ⟨n, hn, rfl⟩ := Tree.row_eq_some_iff.mp hRow
      have hIndex : n.index = j := hOpened.tree.standing.wellFormed.index_of_nodes hn
      rw [hInnermost, Option.bind_some, hj, Option.bind_some, hn] at hEnclosing
      obtain ⟨a', hData, hOpened'⟩ := hOpened.addData hj e
      simp only [hEnclosing, hIndex]
      exact ⟨a', hData, hOpened'.represents⟩

/-- A row of events after another one is a row of events. -/
theorem steps_append {a' : Assembly} {first : List Event} (h : a.steps first = .ok a')
    (later : List Event) : a.steps (first ++ later) = a'.steps later := by
  induction first generalizing a with
  | nil =>
    cases h
    rfl
  | cons e rest ih =>
    rw [steps] at h
    rw [List.cons_append, steps]
    cases hStep : a.step e with
    | error fault =>
      rw [hStep] at h
      cases h
    | ok a₁ =>
      rw [hStep] at h
      exact ih h

/-- An event that fits changes the tree as it changes the ledger, and is not at fault. -/
theorem Represents.step_of_fits (h : a.Represents l) {e : Event} (hFits : e.Fits) :
    ∃ a', a.step e = .ok a' ∧ a'.Represents (l.step e) := by
  unfold Assembly.step Ledger.step
  have hCall (hGiven : e.isCall = true) := And.intro (hFits.taskName (.inr hGiven))
    (hFits.commandLine hGiven)
  rw [Event.isCall] at hCall
  cases hKind : e.kind with
  | buildStarted =>
    obtain ⟨a₁, i, hCurrent, hOpened⟩ := h.current
    exact ⟨a₁, by rw [hCurrent], hOpened.represents⟩
  | buildFinished => exact ⟨_, rfl, h.endBuild e⟩
  | projectStarted => exact h.startProject (hFits.projectFile hKind)
  | targetStarted =>
    rw [(hFits.targetName hKind).orEmpty_eq]
    exact ⟨_, rfl, h.openNode rfl ⟨_, rfl⟩ rfl rfl fun t i =>
      ⟨_, Tree.row_add_size t _ _, rfl, rfl⟩⟩
  | taskStarted =>
    rw [(hFits.taskName (.inl hKind)).orEmpty_eq]
    exact ⟨_, rfl, h.openNode rfl ⟨_, rfl⟩ rfl rfl fun t i =>
      ⟨_, Tree.row_add_size t _ _, rfl, rfl⟩⟩
  | projectFinished | targetFinished | taskFinished => exact ⟨_, rfl, h.closeNode e⟩
  | message | warning | error =>
    rw [hKind] at hCall
    exact h.addMessage (fun hGiven => (hCall hGiven).1) fun hGiven => (hCall hGiven).2
  | custom | status => exact h.addLate e

/-- Any events that fit change the tree as they change the ledger, and none is at fault. -/
theorem Represents.steps_of_fits (h : a.Represents l) {events : List Event}
    (hFits : ∀ e ∈ events, e.Fits) :
    ∃ a', a.steps events = .ok a' ∧ a'.Represents (l.run events) := by
  induction events generalizing a l with
  | nil => exact ⟨a, rfl, h⟩
  | cons e rest ih =>
    rw [List.forall_mem_cons] at hFits
    obtain ⟨a₁, hStep, h₁⟩ := h.step_of_fits hFits.1
    obtain ⟨a', hSteps, h'⟩ := ih h₁ hFits.2
    refine ⟨a', ?_, h'⟩
    rw [Assembly.steps, hStep]
    exact hSteps

/-- Every event of text fields is accepted, and the tree then represents the ledger after it. -/
theorem Represents.step (h : a.Represents l) {e : Event} (hTextual : e.Textual) :
    ∃ a', a.step e = .ok a' ∧ a'.Represents (l.step e) :=
  h.step_of_fits hTextual.fits

/-- All events of text fields are accepted, and the tree then represents the ledger after them. -/
theorem Represents.steps (h : a.Represents l) {events : List Event}
    (hTextual : ∀ e ∈ events, e.Textual) :
    ∃ a', a.steps events = .ok a' ∧ a'.Represents (l.run events) :=
  h.steps_of_fits fun e he => (hTextual e he).fits

end Assembly

end BuildDigest
