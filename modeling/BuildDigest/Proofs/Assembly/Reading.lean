import BuildDigest.Proofs.Assembly.Run
import BuildDigest.Assembly.Results

/-!
# Walks meet the ledger

The walks through the tree of a build meet its projects in the order in which
they arrived, and below a project its own command lines in the order in which
they arrived.

* `Standing.visit_project` — all projects.
* `Standing.lines_below` — the command lines of a project.
* `Standing.isCore_eq` — whether a line is inside the core target is told by the targets of its
  call.
-/

namespace BuildDigest

open Ledger (Call Entry Frame)

namespace Tree

variable {t : Tree} {i d : Nat}

theorem any_row_kind {j : Nat} {n : Node} (hn : t.nodes[j]? = some n) (kind : Node.Kind) :
    ((t.row j).any fun m => decide (m.kind = kind)) = decide (n.kind = kind) := by
  rw [row, hn]
  rfl

/-- Choosing nodes by kind is choosing places by kind. -/
theorem filter_nodesAt (kind : Node.Kind) (js : List Nat) :
    (t.nodesAt js).filter (fun n => decide (n.kind = kind)) =
      t.nodesAt (js.filter fun j => (t.row j).any fun n => decide (n.kind = kind)) := by
  induction js with
  | nil => rfl
  | cons j js ih =>
    cases hn : t.nodes[j]? with
    | none =>
      have hRow : t.row j = none := by rw [row, hn, Option.map_none]
      have hSkip : t.nodesAt (j :: js) = t.nodesAt js := by
        rw [nodesAt, List.filterMap_cons, hn, nodesAt]
      rw [hSkip, List.filter_cons, hRow]
      exact ih
    | some n =>
      rw [nodesAt_cons_of_nodes hn, List.filter_cons, List.filter_cons, any_row_kind hn]
      split
      · rw [nodesAt_cons_of_nodes hn, ih]
      · exact ih

theorem stopsAt_project (t : Tree) (j : Nat) :
    t.stopsAt (fun n => decide (n.kind = .project)) j = t.isProjectAt j := by
  rw [stopsAt, isProjectAt, row]
  cases t.nodes[j]? <;> rfl

/-- The projects of a build are visited in the order in which they arrived. -/
theorem Standing.visit_project (h : t.Standing i) :
    t.visit .project = t.nodesAt (t.select Node.isProject) := by
  obtain ⟨r, hRow, hKind⟩ := h.root
  obtain ⟨r, hr, rfl⟩ := row_eq_some_iff.mp hRow
  have hKind : r.kind = .build := hKind
  have hLogged : ∀ d, t.isProjectAt d = true → d ∈ t.select Node.isLogged := by
    intro d hd
    obtain ⟨n, hn, hProject⟩ := Option.any_eq_true _ _ |>.mp hd
    have hnKind : n.kind = .project := of_decide_eq_true hProject
    exact mem_select.mpr ⟨n, hn, by rw [Node.isLogged, hnKind]; rfl⟩
  have hBelow : ∀ d, t.isProjectAt d = true → (d ∈ t.preorder (fun _ => false) 0 ↔ true = true) := by
    intro d hd
    refine ⟨fun _ => rfl, fun _ => ?_⟩
    have hSize := lt_size_of_mem_select (hLogged d hd)
    have hPos : 0 < d := by
      rcases Nat.eq_zero_or_pos d with rfl | hPos
      · rw [isProjectAt, hRow, Option.any_some, Node.isProject] at hd
        exact absurd (hKind.symm.trans (of_decide_eq_true hd)) (by decide)
      · exact hPos
    obtain ⟨js, rest, hTrail⟩ := List.append_of_mem (h.root_mem_trail hPos hSize)
    refine h.wellFormed.mem_preorder_iff.mpr ⟨js, rest, hTrail, fun j _ => ?_⟩
    rw [stopsAt]
    cases t.nodes[j]? <;> rfl
  have hOrder := h.wellFormed.filter_preorder_eq_select h.nested hLogged hBelow
  have hProjects : (t.select Node.isLogged).filter (fun d => t.isProjectAt d && true) =
      t.select Node.isProject := by
    simp only [Bool.and_true]
    rw [show (fun d => t.isProjectAt d) = fun d => (t.row d).any Node.isProject from rfl,
      filter_select]
    congr 1
    funext n
    rw [Node.isProject, Node.isLogged]
    cases n.kind <;> rfl
  rw [visit, root?, hr]
  simp only [List.filter_cons, hKind, h.wellFormed.branching.below_eq hr]
  rw [if_neg (by decide), filter_nodesAt]
  exact congrArg t.nodesAt (hOrder.trans hProjects)

/-- The command lines that a walk from a project meets, if it does not enter other projects. -/
theorem Standing.lines_below (h : t.Standing i) {j : Nat} (hj : t.isProjectAt j = true) :
    (t.preorder (fun n => decide (n.kind = .project)) j).filter
      (fun d => (t.row d).any Node.isLine) = t.linesOf j := by
  have hLogged : ∀ d, (t.row d).any Node.isLine = true → d ∈ t.select Node.isLogged := by
    intro d hd
    obtain ⟨n, hn, hLine⟩ := Option.any_eq_true _ _ |>.mp hd
    have hnKind : n.kind = .commandLine := of_decide_eq_true hLine
    exact mem_select.mpr ⟨n, hn, by rw [Node.isLogged, hnKind]; rfl⟩
  have hAbove : ∀ d, (t.row d).any Node.isLine = true →
      (d ∈ t.preorder (fun n => decide (n.kind = .project)) j ↔
        decide (t.projectAbove d = some j) = true) := by
    intro d _
    rw [h.wellFormed.mem_preorder_iff, decide_eq_true_eq, projectAbove,
      List.find?_eq_some_iff_append]
    simp only [stopsAt_project, hj, true_and, Bool.not_eq_true']
  rw [h.wellFormed.filter_preorder_eq_select h.nested hLogged hAbove, linesOf]
  have hLines : t.select Node.isLine =
      (t.select Node.isLogged).filter fun d => (t.row d).any Node.isLine := by
    rw [filter_select]
    congr 1
    funext n
    rw [Node.isLine, Node.isLogged]
    cases n.kind <;> rfl
  rw [hLines, List.filter_filter]
  exact List.filter_congr fun d _ => Bool.and_comm _ _

def LineAt (t : Tree) (i d : Nat) (c : Call) : Prop :=
  t.projectAbove d = some i ∧ t.CallAt d c

/-- The command lines of a project stand for the calls of its entry. -/
theorem EntryAt.lines {b : Entry} (h : t.EntryAt i b) :
    List.Forall₂ (t.LineAt i) (t.linesOf i) b.calls := by
  refine (List.forall₂_and_left _ _).mpr ⟨fun d hd => ?_, h.calls⟩
  exact of_decide_eq_true (List.mem_filter.mp hd).2

-- ---------------------------------------------------------------------------
-- The core target
-- ---------------------------------------------------------------------------

/-- The way up from a line, followed to its project, meets the targets of its call. -/
theorem Standing.meetsCore_eq (h : t.Standing i) {core : String} {j : Nat} {js rest : List Nat}
    (hjs : ∀ k ∈ js, k < t.size ∧ t.isProjectAt k = false) (hj : t.isProjectAt j = true) :
    Gathering.meetsCore core j none (t.nodesAt (js ++ j :: rest)) =
      .ok ((js.filterMap t.targetNameAt).any fun name => Text.lower name = core) := by
  induction js with
  | nil =>
    -- the project itself is where the way up is left
    obtain ⟨n, hRow, _⟩ := Option.any_eq_true _ _ |>.mp hj
    obtain ⟨n, hn, rfl⟩ := row_eq_some_iff.mp hRow
    have hIndex : n.index = j := h.wellFormed.index_of_nodes hn
    rw [List.nil_append, nodesAt_cons_of_nodes hn, Gathering.meetsCore, if_pos hIndex]
    rfl
  | cons k js ih =>
    rw [List.forall_mem_cons] at hjs
    obtain ⟨⟨hk, hkProject⟩, hjs⟩ := hjs
    obtain ⟨n, hn⟩ := exists_node hk
    have hRow : t.row k = some n.bare := by rw [row, hn, Option.map_some]
    have hIndex : n.index = k := h.wellFormed.index_of_nodes hn
    have hkj : k ≠ j := by
      rintro rfl
      rw [hj] at hkProject
      cases hkProject
    have hName : t.targetNameAt k = n.targetName? := by
      rw [targetNameAt, hRow]
      rfl
    rw [List.cons_append, nodesAt_cons_of_nodes hn, Gathering.meetsCore, hIndex, if_neg hkj,
      ih hjs]
    -- a node in between counts only if it is a target
    by_cases hKind : n.kind = .target
    · obtain ⟨s, hs⟩ := h.namesText k n.bare hRow
      have hs : n.name = .text s := hs
      have hTarget : n.targetName? = some s := by
        rw [Node.targetName?, if_pos hKind, hs]
      rw [if_pos hKind, hs, Value.asText_text, List.filterMap_cons_some (hName.trans hTarget),
        List.any_cons]
      by_cases hCore : Text.lower s = core
      · simp [hCore]
      · simp [hCore]
    · have hTarget : n.targetName? = none := by rw [Node.targetName?, if_neg hKind]
      rw [if_neg hKind, List.filterMap_cons_none (hName.trans hTarget)]

/-- The way up from a node to the innermost project above it. -/
theorem WellFormed.exists_trail_of_projectAbove (hWf : t.WellFormed) (hd : d < t.size) {j : Nat}
    (hAbove : t.projectAbove d = some j) :
    ∃ js rest, t.trail d = js ++ j :: rest ∧ t.isProjectAt j = true ∧
      ∀ k ∈ js, k < t.size ∧ t.isProjectAt k = false := by
  rw [projectAbove, List.find?_eq_some_iff_append] at hAbove
  obtain ⟨hProject, js, rest, hTrail, hNone⟩ := hAbove
  refine ⟨js, rest, hTrail, hProject, fun k hk => ?_⟩
  refine ⟨hWf.lt_size_of_mem_trail hd ?_, by simpa using hNone k hk⟩
  rw [hTrail]
  exact List.mem_append_left _ hk

/-- A command line is inside the core target when one of the targets of its call has the name of
that target. The targets between the line and its project are those of the call. -/
theorem Standing.isCore_eq (h : t.Standing i) (g : Gathering) {j : Nat} {c : Call} {n line : Node}
    (hn : n.index = j) (hProject : t.isProjectAt j = true) (hLine : t.nodes[d]? = some line)
    (hAt : t.LineAt j d c) :
    g.isCore t n line =
      g.settings.coreName.map fun core => c.targets.any fun name => Text.lower name = core := by
  obtain ⟨hAbove, hTargets, -⟩ := hAt
  have hd : d < t.size := (Array.getElem?_eq_some_iff.mp hLine).1
  obtain ⟨js, rest, hTrail, -, hjs⟩ := h.wellFormed.exists_trail_of_projectAbove hd hAbove
  -- the targets of the call are those up to the project, which is where the search ends
  have hTake : (t.trail d).takeWhile (fun k => !t.isProjectAt k) = js := by
    rw [hTrail, List.takeWhile_append_of_pos fun k hk => by simp [(hjs k hk).2],
      List.takeWhile_cons_of_neg (by simp [hProject]), List.append_nil]
  rw [Gathering.isCore, h.wellFormed.above_eq_nodesAt_trail hLine, hTrail, hTargets,
    targetsAround, hTake]
  cases g.settings.coreName with
  | error fault => rfl
  | ok core =>
    simp only [hn, h.meetsCore_eq hjs hProject]
    rfl

end Tree

end BuildDigest
