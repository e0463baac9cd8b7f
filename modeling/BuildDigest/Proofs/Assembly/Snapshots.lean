import BuildDigest.Proofs.Assembly.Reading
import BuildDigest.Proofs.Outcome

/-!
# Snapshots are read off the ledger

The snapshots of a tree are those of the ledger that it represents, whatever is
asked for and under whatever settings, and so are the faults of settings.

* `EntryAt.feed_eq` — what a project reports to a snapshot.
* `EntryAt.visit_eq` — one project.
* `Assembly.Represents.snapshots_eq` — the result.
-/

namespace BuildDigest

open Ledger (Call Entry Frame)

namespace Gathering

/-- Command lines are chosen by kind, so choosing by kind first makes no difference. -/
theorem compilerLines_filter (g : Gathering) (ns : List Node) :
    g.compilerLines (ns.filter fun n => decide (n.kind = .commandLine)) = g.compilerLines ns := by
  induction ns with
  | nil => rfl
  | cons n ns ih =>
    by_cases hKind : n.kind = .commandLine
    · rw [List.filter_cons_of_pos (by simpa using hKind), compilerLines, compilerLines, ih]
    · rw [List.filter_cons_of_neg (by simpa using hKind), ih, compilerLines, if_neg hKind]

/-- Whether a project counts for a snapshot depends on how it finished only through its truth. -/
theorem credited_congr (g : Gathering) (snapshots : Ordered String Snapshot) (moniker : String)
    {n m : Node} (h : n.succeeded.holds = m.succeeded.holds) :
    g.credited snapshots moniker n = g.credited snapshots moniker m := by
  rw [credited, credited, h]

end Gathering

/-- A line that counts as empty is recorded as the empty text is. -/
theorem Snapshot.recordInvocation_orEmpty (s : Snapshot) (line : Value) (core : Bool) :
    s.recordInvocation line.orEmpty core = s.recordInvocation line core := by
  cases hHolds : line.holds with
  | true => rw [Value.orEmpty_of_holds hHolds]
  | false =>
    rw [Value.orEmpty_of_not_holds hHolds, recordInvocation, recordInvocation, hHolds]
    rfl

namespace Tree

variable {t : Tree} {i j d : Nat} {b : Entry} {n : Node}

/-- Choosing compiler lines among the nodes of a project is choosing compiler calls among the calls
of its entry, a fault of the settings included. The induction is on the lines. -/
theorem compilerLines_eq (g : Gathering) {js : List Nat} {calls : List Call}
    (h : List.Forall₂ (t.LineAt i) js calls) :
    (∃ fault, g.compilerLines (t.nodesAt js) = .error fault ∧
        g.compilerCalls calls = .error fault) ∨
      ∃ js' calls', g.compilerLines (t.nodesAt js) = .ok (t.nodesAt js') ∧
        g.compilerCalls calls = .ok calls' ∧ List.Forall₂ (t.LineAt i) js' calls' := by
  induction h with
  | nil => exact Or.inr ⟨[], [], rfl, rfl, List.Forall₂.nil⟩
  | @cons d c js calls hLine _ ih =>
    obtain ⟨-, -, n, hRow, hKind, hName, -⟩ := id hLine
    obtain ⟨n, hn, rfl⟩ := row_eq_some_iff.mp hRow
    have hKind : n.kind = .commandLine := hKind
    have hName : n.name = .text c.task := hName
    rw [nodesAt_cons_of_nodes hn, Gathering.compilerLines, if_pos hKind, hName,
      Gathering.compilerCalls]
    cases hTask : g.settings.isCompilerTask (.text c.task) with
    | error fault => exact Or.inl ⟨fault, rfl, rfl⟩
    | ok isCompiler =>
      rcases ih with ⟨fault, hLines, hCalls⟩ | ⟨js', calls', hLines, hCalls, hAt⟩
      · rw [hLines, hCalls]
        exact Or.inl ⟨fault, rfl, rfl⟩
      · rw [hLines, hCalls]
        cases isCompiler with
        | true =>
          exact Or.inr ⟨d :: js', c :: calls', by rw [nodesAt_cons_of_nodes hn]; rfl, rfl,
            List.Forall₂.cons hLine hAt⟩
        | false => exact Or.inr ⟨js', calls', rfl, rfl, hAt⟩

/-- Reporting the invocations of a project comes to reporting the calls of its entry. -/
theorem Standing.reportInvocations_eq {k : Nat} (h : t.Standing k) (g : Gathering)
    (hn : n.index = i) (hProject : t.isProjectAt i = true) {js : List Nat} {calls : List Call}
    (hLines : List.Forall₂ (t.LineAt i) js calls) (s : Snapshot) :
    g.reportInvocations t n s (t.nodesAt js) = g.reportCalls s calls := by
  induction hLines generalizing s with
  | nil => rfl
  | @cons d c js calls hLine _ ih =>
    obtain ⟨-, -, line, hRow, -, -, hValue⟩ := id hLine
    obtain ⟨line, hd, rfl⟩ := row_eq_some_iff.mp hRow
    have hValue : line.value.orEmpty = .text c.text := hValue
    rw [nodesAt_cons_of_nodes hd, Gathering.reportInvocations, Gathering.reportCalls,
      h.isCore_eq g hn hProject hd hLine]
    cases g.settings.coreName with
    | error fault => rfl
    | ok core =>
      show (do
        let s' ← s.recordInvocation line.value _
        g.reportInvocations t n s' (t.nodesAt js)) = _
      rw [← Snapshot.recordInvocation_orEmpty, hValue]
      exact bind_congr fun s' => ih s'

/-- A project reports to a snapshot what its entry says. -/
theorem EntryAt.feed_eq {k : Nat} (h : t.EntryAt i b) (hStanding : t.Standing k) (g : Gathering)
    (hn : t.nodes[i]? = some n) (s : Snapshot) : g.feed t n s = g.feedEntry b s := by
  have hWf := hStanding.wellFormed
  have hi := lt_size_of_owner h.project.owner
  have hIndex : n.index = i := hWf.index_of_nodes hn
  have hProject : t.isProjectAt i = true := by
    obtain ⟨m, hRow, hKind, _⟩ := h.project
    rw [isProjectAt, hRow]
    exact decide_eq_true hKind
  -- the walk stops at other projects, so it meets the lines of this one only
  have hLines : g.invocations t n = g.compilerLines (t.nodesAt (t.linesOf i)) := by
    rw [Gathering.invocations, hWf.branching.below_eq hn, ← Gathering.compilerLines_filter,
      filter_nodesAt]
    exact congrArg (fun js => g.compilerLines (t.nodesAt js)) (hStanding.lines_below hProject)
  rw [Gathering.feed, Gathering.feedEntry, hIndex, h.shelf.properties_eq hWf hStanding.namesText hi,
    h.shelf.itemGroups_eq hWf hStanding.namesText hi, hLines]
  simp only [Except.ok_bind]
  obtain ⟨⟨s', fault⟩, hRecord⟩ : ∃ r, s.recordProperties
      (List.map (fun p => (.text p.1, .text p.2)) (Filing.properties b.properties).values) = r :=
    ⟨_, rfl⟩
  rw [hRecord]
  -- properties are recorded alike, and after a fault nothing else is
  cases fault with
  | none =>
    refine bind_congr fun s' => ?_
    rcases compilerLines_eq g h.lines with
      ⟨fault, hLines, hCalls⟩ | ⟨js, calls, hLines, hCalls, hAt⟩
    · rw [hLines, hCalls]
      rfl
    · rw [hLines, hCalls]
      exact hStanding.reportInvocations_eq g hIndex hProject hAt s'
  | some fault => rfl

/-- The target framework of a project node is that of its entry. -/
theorem EntryAt.monikerOf_eq {k : Nat} (h : t.EntryAt i b) (hStanding : t.Standing k)
    (hIndex : n.index = i) : Gathering.monikerOf t n = .ok b.moniker := by
  have hi := lt_size_of_owner h.project.owner
  rw [Gathering.monikerOf, hIndex,
    h.shelf.property_eq hStanding.wellFormed hStanding.namesText hi, Filing.get?_properties,
    Entry.moniker]
  cases Filing.lastValue b.properties monikerProperty with
  | none => rfl
  | some value =>
    show (do
      let text ← (Value.text value).orEmpty.asText .strip
      return Text.strip text) = _
    rw [Value.orEmpty_text]
    rfl

/-- A project is visited as its entry is. -/
theorem EntryAt.visit_eq {k : Nat} (h : t.EntryAt i b) (hStanding : t.Standing k) (g : Gathering)
    (hn : t.nodes[i]? = some n) (snapshots : Ordered String Snapshot) :
    g.visit t snapshots n = g.visitEntry snapshots b := by
  have hIndex : n.index = i := hStanding.wellFormed.index_of_nodes hn
  obtain ⟨m, hRow, -, hFile, hFinished, hSucceeded⟩ := h.project
  obtain ⟨m, hm, rfl⟩ := row_eq_some_iff.mp hRow
  rw [hn] at hm
  obtain rfl := Option.some.inj hm
  have hFile : n.projectFile = .text b.file := hFile
  have hFinished : n.finished.holds = b.outcome.isSome := hFinished
  have hWanted : g.isWanted n = g.isWanted b.node := by
    rw [Gathering.isWanted, hFile]
    rfl
  rw [Gathering.visit, Gathering.visitEntry, hWanted, hFinished, h.monikerOf_eq hStanding hIndex]
  split
  · next hBoth =>
    have hSome := (Bool.and_eq_true _ _ |>.mp hBoth).2
    obtain ⟨ok, hOk⟩ := Option.isSome_iff_exists.mp hSome
    have hHolds : n.succeeded.holds = b.node.succeeded.holds := by
      have hOkNode : n.succeeded.holds = ok := hSucceeded ok hOk
      rw [hOkNode, Entry.node, hOk]
      rfl
    -- a build without a moniker reports nothing
    by_cases hMoniker : b.moniker = ""
    · simp [hMoniker, bind, Except.bind, pure, Except.pure]
    · rw [if_neg hMoniker, Except.ok_bind, if_neg hMoniker,
        Gathering.credited_congr g snapshots b.moniker hHolds]
      refine bind_congr fun s => ?_
      rw [h.feed_eq hStanding g hn s]
  · rfl

/-- The projects of a tree are visited as the entries of a ledger are. -/
theorem Standing.visitAll_eq {k : Nat} (hStanding : t.Standing k) (g : Gathering) {js : List Nat}
    {entries : List Entry} (h : List.Forall₂ t.EntryAt js entries)
    (snapshots : Ordered String Snapshot) :
    g.visitAll t snapshots (t.nodesAt js) = entries.foldlM g.visitEntry snapshots := by
  induction h generalizing snapshots with
  | nil => rfl
  | @cons j b js entries hEntry _ ih =>
    obtain ⟨n, hn⟩ := exists_node (lt_size_of_owner hEntry.project.owner)
    rw [nodesAt_cons_of_nodes hn, Gathering.visitAll, hEntry.visit_eq hStanding g hn,
      List.foldlM_cons]
    cases g.visitEntry snapshots b with
    | error fault => rfl
    | ok snapshots' => exact ih snapshots'

end Tree

/-- The snapshots of an assembly are those of the ledger that it represents. -/
theorem Assembly.Represents.snapshots_eq {a : Assembly} {l : Ledger} (h : a.Represents l)
    (g : Gathering) : a.snapshots g = l.snapshots g := by
  rcases h with ⟨_, hEmpty, rfl⟩ | ⟨i, hOpened⟩
  · -- before the first event there is no root to visit
    rw [Assembly.snapshots, hEmpty]
    rfl
  · rw [Assembly.snapshots, hOpened.tree.standing.visit_project,
      hOpened.tree.standing.visitAll_eq g hOpened.tree.entries]
    rfl

end BuildDigest
