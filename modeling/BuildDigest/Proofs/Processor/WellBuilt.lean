import BuildDigest.Proofs.Assembly.Housing
import BuildDigest.Proofs.Processor.Digest

/-!
# Assemblies that events come to

All that a reader of an assembly may rely on, said of the nodes themselves: how they
refer to each other, where each of them stands, and which of them are open. An
assembly is built that way after any events, and takes every further event.

* `Tree.Climbs` — the nodes above a node, up to one without a parent.
* `Tree.IsSection` — one of the two folders of a project.
* `Tree.WellBuilt`, `Assembly.WellBuilt` — the invariant.
* `Processor.processAll_wellBuilt` — it holds after any events.
-/

namespace BuildDigest

namespace Tree

variable {t : Tree} {f i j k p : Nat} {n m : Node} {name : String} {l : Ledger}

/-- The nodes above a node, the innermost first, up to one that has no parent. -/
inductive Climbs (t : Tree) : Node → List Node → Prop
  | top {n : Node} (hParent : n.parent = .null) : Climbs t n []
  | up {n m : Node} {above : List Node} (hParent : t.node n.parent = .ok m)
      (hAbove : Climbs t m above) : Climbs t n (m :: above)

/-- A node is the folder of a project under a name. -/
def IsSection (t : Tree) (name : String) (p f : Nat) : Prop :=
  ∃ m n : Node, t.nodes[p]? = some m ∧ m.kind = .project ∧
    t.nodes[f]? = some n ∧ n.kind = .folder ∧ n.name = .text name ∧ n.parent = .int p

/-- The nodes refer to each other by their indices, and stand where they belong. -/
structure WellBuilt (t : Tree) : Prop where
  index : ∀ (i : Nat) (n : Node), t.nodes[i]? = some n → n.index = i
  root : ∀ (i : Nat) (n : Node), t.nodes[i]? = some n →
    (n.kind = .build ↔ i = 0) ∧ (n.parent = .null ↔ i = 0)
  parent : ∀ (i : Nat) (n : Node), t.nodes[i]? = some n → i ≠ 0 →
    ∃ (p : Nat) (m : Node), p < i ∧ n.parent = .int p ∧ t.nodes[p]? = some m ∧
      m.children.count i = 1
  children : ∀ (i : Nat) (n : Node), t.nodes[i]? = some n → n.children.Pairwise (· < ·) ∧
    ∀ c ∈ n.children, ∃ m : Node, t.nodes[c]? = some m ∧ m.parent = .int i
  folder : ∀ (i : Nat) (n : Node), t.nodes[i]? = some n → n.kind = .folder →
    ∃ p, t.IsSection propertiesFolder p i ∨ t.IsSection itemsFolder p i ∨
      ∃ f : Nat, t.IsSection itemsFolder p f ∧ n.parent = .int f
  property : ∀ (i : Nat) (n : Node), t.nodes[i]? = some n → n.kind = .nameValue →
    ∃ p f : Nat, t.IsSection propertiesFolder p f ∧ n.parent = .int f
  item : ∀ (i : Nat) (n : Node), t.nodes[i]? = some n → n.kind = .item →
    ∃ (p f g : Nat) (m : Node), t.IsSection itemsFolder p f ∧
      t.nodes[g]? = some m ∧ m.kind = .folder ∧ m.parent = .int f ∧ n.parent = .int g
  /-- Folders of a node, and properties of a folder, differ in their names without case. -/
  names : ∀ (i j : Nat) (n m : Node), t.nodes[i]? = some n → t.nodes[j]? = some m →
    n.kind = .folder ∨ n.kind = .nameValue → m.kind = n.kind → m.parent = n.parent →
    ∃ s r, n.name = .text s ∧ m.name = .text r ∧ (Text.lower s = Text.lower r → i = j)
  climbs : ∀ (i : Nat) (n : Node), t.nodes[i]? = some n → ∃ above, t.Climbs n above ∧
    t.ancestors (.int i) = .ok above ∧
    ∀ kind, t.enclosing (.int i) kind = .ok ((n :: above).find? (·.kind = kind))

-- ---------------------------------------------------------------------------
-- Nodes and their rows
-- ---------------------------------------------------------------------------

theorem row_of_nodes (hn : t.nodes[i]? = some n) : t.row i = some n.bare :=
  row_eq_some_iff.mpr ⟨n, hn, rfl⟩

/-- A node whose parent has an index refers to it by that index. -/
theorem WellFormed.parent_eq (hWf : t.WellFormed) (hn : t.nodes[i]? = some n)
    (hParent : n.parentIndex = some p) : n.parent = .int p := by
  rcases hWf.parent_cases hn with ⟨-, hTop⟩ | ⟨q, -, hInt, hAt⟩
  · rw [parent?_eq_of_nodes hn, hParent] at hTop
    cases hTop
  · rw [parent?_eq_of_nodes hn, hParent] at hAt
    cases hAt
    exact hInt

/-- The nodes above a node are those on its way up. -/
theorem WellFormed.climbs (hWf : t.WellFormed) (hn : t.nodes[i]? = some n) :
    t.Climbs n (t.nodesAt (t.trail i)) := by
  induction i using hWf.trail_induction generalizing n with
  | top i hTop =>
    rcases hWf.parent_cases hn with ⟨hNull, -⟩ | ⟨p, -, -, hp⟩
    · rw [trail_eq_nil hTop]
      exact .top hNull
    · rw [hTop] at hp
      cases hp
  | below i p hp ih =>
    have hp' := hp
    rw [parent?_eq_of_nodes hn] at hp'
    have hi := lt_size_of_row (row_of_nodes hn)
    obtain ⟨m, hm⟩ := exists_node (Nat.lt_trans (hWf.lt_of_parent? hp) hi)
    rw [hWf.trail_eq_cons hp, nodesAt_cons_of_nodes hm]
    refine .up ?_ (ih hm)
    rw [hWf.parent_eq hn hp', node_natCast hm]

/-- A folder that is found by name is spelled like it. -/
theorem Housed.isSection (h : t.Housed) (hWf : t.WellFormed)
    (hName : name = propertiesFolder ∨ name = itemsFolder) (hAt : t.SectionAt p name f) :
    t.IsSection name p f := by
  obtain ⟨n, hRow, hKind, hParent, hText⟩ := h.name_of_sectionAt hWf hName hAt
  obtain ⟨n, hn, rfl⟩ := row_eq_some_iff.mp hRow
  have hProject := hAt.1
  rw [isProjectAt, Option.any_eq_true] at hProject
  obtain ⟨m, hRow', hProject⟩ := hProject
  obtain ⟨m, hm, rfl⟩ := row_eq_some_iff.mp hRow'
  exact ⟨m, n, hm, of_decide_eq_true hProject, hn, hKind, hText, hWf.parent_eq hn hParent⟩

-- ---------------------------------------------------------------------------
-- The tree of an assembly
-- ---------------------------------------------------------------------------

/-- The root alone is a build, and it alone has no parent. -/
theorem Represents.root_iff (h : t.Represents i l) (hHoused : t.Housed)
    (hn : t.nodes[j]? = some n) : (n.kind = .build ↔ j = 0) ∧ (n.parent = .null ↔ j = 0) := by
  have hWf := h.standing.wellFormed
  have hj := lt_size_of_row (row_of_nodes hn)
  by_cases hRoot : j = 0
  · subst hRoot
    obtain ⟨r, hRow, hBuild⟩ := h.standing.root
    obtain ⟨r, hr, rfl⟩ := row_eq_some_iff.mp hRow
    rw [hn] at hr
    cases hr
    refine ⟨iff_of_true hBuild rfl, iff_of_true ?_ rfl⟩
    rcases hWf.parent_cases hn with ⟨hNull, -⟩ | ⟨p, hp, -⟩
    · exact hNull
    · exact absurd hp (Nat.not_lt_zero p)
  · refine ⟨iff_of_false (fun hBuild => ?_) hRoot, iff_of_false (fun hNull => ?_) hRoot⟩
    · cases hHoused j n.bare hRoot (row_of_nodes hn) with
      | logged _ hOther => exact hOther hBuild
      | projectFolder hKind | typeFolder hKind | property hKind | item hKind =>
        have hKind : n.kind = _ := hKind
        rw [hKind] at hBuild
        cases hBuild
    · obtain ⟨p, hp⟩ := h.standing.below j (Nat.pos_of_ne_zero hRoot) hj
      rw [parent?_eq_of_nodes hn, Node.parentIndex, hNull] at hp
      cases hp

/-- A tree that represents a ledger is well built, if its nodes stand where they belong. -/
theorem Represents.wellBuilt (h : t.Represents i l) (hHoused : t.Housed) : t.WellBuilt where
  index j n hn := h.standing.wellFormed.index_of_nodes hn
  root j n hn := h.root_iff hHoused hn
  parent j n hn hRoot := by
    have hWf := h.standing.wellFormed
    have hj := lt_size_of_row (row_of_nodes hn)
    obtain ⟨p, hp⟩ := h.standing.below j (Nat.pos_of_ne_zero hRoot) hj
    have hlt := hWf.lt_of_parent? hp
    obtain ⟨m, hm⟩ := exists_node (Nat.lt_trans hlt hj)
    have hKid : j ∈ t.kids p := hWf.mem_kids.mpr hp
    refine ⟨p, m, hlt, hWf.parent_eq hn (parent?_eq_of_nodes hn ▸ hp), hm, ?_⟩
    rw [← kids_of_nodes hm]
    exact List.count_eq_one_of_mem (hWf.branching.nodup_kids p) hKid
  children j n hn := by
    have hWf := h.standing.wellFormed
    rw [← kids_of_nodes hn]
    refine ⟨hWf.pairwise_kids j, fun c hc => ?_⟩
    have hParent := hWf.mem_kids.mp hc
    obtain ⟨m, hm⟩ := exists_node (lt_size_of_parent? hParent)
    exact ⟨m, hm, hWf.parent_eq hm (parent?_eq_of_nodes hm ▸ hParent)⟩
  folder j n hn hKind := by
    have hWf := h.standing.wellFormed
    have hRow := row_of_nodes hn
    have hRoot := h.ne_zero_of_isFiling hRow (by rw [Node.bare, hKind]; rfl)
    obtain ⟨p, hParent, ⟨hProject, name, hName, hText⟩ | ⟨q, hIn⟩⟩ :=
      (hHoused j n.bare hRoot hRow).of_folder hKind
    · have hNamed : n.bare.isNamed .folder (Text.lower name) = true := by
        rw [Node.isNamed, Node.foldedName, hText, Node.bare, hKind]
        simp
      have hSection := hHoused.isSection hWf hName
        ⟨hProject, mem_foldersNamed.mpr ⟨n.bare, hRow, hParent, hNamed⟩⟩
      rcases hName with rfl | rfl
      · exact ⟨p, Or.inl hSection⟩
      · exact ⟨p, Or.inr (Or.inl hSection)⟩
    · exact ⟨q, Or.inr (Or.inr ⟨p, hHoused.isSection hWf (Or.inr rfl) hIn,
        hWf.parent_eq hn hParent⟩)⟩
  property j n hn hKind := by
    have hWf := h.standing.wellFormed
    have hRow := row_of_nodes hn
    have hRoot := h.ne_zero_of_isFiling hRow (by rw [Node.bare, hKind]; rfl)
    obtain ⟨p, f, hIn, hParent⟩ := (hHoused j n.bare hRoot hRow).of_property hKind
    exact ⟨p, f, hHoused.isSection hWf (Or.inl rfl) hIn, hWf.parent_eq hn hParent⟩
  item j n hn hKind := by
    have hWf := h.standing.wellFormed
    have hRow := row_of_nodes hn
    have hRoot := h.ne_zero_of_isFiling hRow (by rw [Node.bare, hKind]; rfl)
    obtain ⟨p, f, g, key, hIn, hg, hParent⟩ := (hHoused j n.bare hRoot hRow).of_item hKind
    obtain ⟨m, hRow', hFolder, hUnder, -⟩ := kind_of_mem_foldersNamed hg
    obtain ⟨m, hm, rfl⟩ := row_eq_some_iff.mp hRow'
    exact ⟨p, f, g, m, hHoused.isSection hWf (Or.inr rfl) hIn, hm, hFolder,
      hWf.parent_eq hm hUnder, hWf.parent_eq hn hParent⟩
  names j k n m hn hm hKind hSame hParent := by
    obtain ⟨s, hs⟩ := h.standing.namesText j n.bare (row_of_nodes hn)
    obtain ⟨r, hr⟩ := h.standing.namesText k m.bare (row_of_nodes hm)
    refine ⟨s, r, hs, hr, fun hLower => ?_⟩
    refine h.eq_of_foldedName hHoused (row_of_nodes hn) (row_of_nodes hm) hKind hSame ?_ ?_
    · exact congrArg (fun v => Node.parentIndex { m with parent := v }) hParent
    · rw [Node.foldedName, Node.foldedName, hs, hr]
      exact congrArg some hLower.symm
  climbs j n hn := by
    have hWf := h.standing.wellFormed
    refine ⟨_, hWf.climbs hn, ?_, fun kind => ?_⟩
    · simp only [ancestors, node_natCast hn, hWf.above_eq_nodesAt_trail hn]
    · rw [hWf.enclosing_eq_find? (lt_size_of_row (row_of_nodes hn)), nodesAt_cons_of_nodes hn]

theorem wellBuilt_empty : WellBuilt empty := by
  have hNone (i : Nat) (n : Node) : empty.nodes[i]? ≠ some n := nofun
  constructor
  case names => exact fun i _ n _ hn => absurd hn (hNone i n)
  all_goals exact fun i n hn => absurd hn (hNone i n)

-- ---------------------------------------------------------------------------
-- The open nodes
-- ---------------------------------------------------------------------------

/-- On the way up each node is the parent of the one before it. -/
theorem WellFormed.isChain_trail (hWf : t.WellFormed) (i : Nat) :
    (i :: t.trail i).IsChain fun j p => t.parent? j = some p := by
  induction i using hWf.trail_induction with
  | top i hTop =>
    rw [trail_eq_nil hTop]
    exact .singleton i
  | below i p hp ih =>
    rw [hWf.trail_eq_cons hp]
    exact ih.cons_cons hp

/-- The way up ends at the root. -/
theorem Stacked.getLast?_eq {frames : List Ledger.Frame} (h : t.Stacked i frames)
    (hStanding : t.Standing i) : (i :: t.trail i).getLast? = some 0 := by
  induction h with
  | root =>
    rw [hStanding.trail_zero]
    rfl
  | push hParent _ _ ih =>
    rw [hStanding.wellFormed.trail_eq_cons hParent, List.getLast?_cons_cons]
    exact ih (hStanding.above hParent)

/-- An open frame is a part of a build. -/
theorem FrameAt.isPart {frame : Ledger.Frame} (h : t.FrameAt i frame) :
    ∃ n, t.row i = some n ∧ n.kind.isPart = true := by
  cases frame with
  | project k =>
    obtain ⟨n, hRow, hProject⟩ := mem_select.mp (List.mem_of_getElem? h)
    have hKind : n.kind = .project := of_decide_eq_true hProject
    exact ⟨n, hRow, by rw [hKind]; rfl⟩
  | target name | task name =>
    obtain ⟨n, hRow, hKind, _⟩ := h
    exact ⟨n, hRow, by rw [hKind]; rfl⟩

/-- What is open below the root is a part. -/
theorem Stacked.isPart_of_mem {frames : List Ledger.Frame} (h : t.Stacked i frames)
    (hStanding : t.Standing i) (hj : j ∈ i :: t.trail i) (hRoot : j ≠ 0) :
    ∃ n, t.row j = some n ∧ n.kind.isPart = true := by
  induction h with
  | root =>
    rw [hStanding.trail_zero, List.mem_singleton] at hj
    exact absurd hj hRoot
  | push hParent hHere _ ih =>
    rw [hStanding.wellFormed.trail_eq_cons hParent] at hj
    rcases List.mem_cons.mp hj with rfl | hj
    · exact hHere.isPart
    · exact ih (hStanding.above hParent) hj

end Tree

namespace Assembly

variable {a : Assembly} {l : Ledger}

/-- The tree is well built, and the open nodes are the way from a part that is not finished up to
the root. -/
structure WellBuilt (a : Assembly) : Prop where
  tree : a.tree.WellBuilt
  bottom : a.openNodes = [] ∨ a.openNodes.getLast? = some 0
  chain : a.openNodes.IsChain fun j p => ∃ n, a.tree.nodes[j]? = some n ∧ n.parent = .int p
  openNodes : ∀ j ∈ a.openNodes, ∃ n : Node, a.tree.nodes[j]? = some n ∧
    (j ≠ 0 → n.kind.isPart = true ∧ n.finished = .bool false)
  takes : ∀ e : Event, e.Textual → ∃ a', a.step e = .ok a'

/-- An assembly that represents a ledger is well built, if its nodes stand where they belong and
nothing open is finished. -/
theorem Represents.wellBuilt (h : a.Represents l) (hHoused : a.tree.Housed) (hLive : a.Live) :
    a.WellBuilt := by
  have hTakes : ∀ e : Event, e.Textual → ∃ a', a.step e = .ok a' := fun e hTextual =>
    let ⟨a', hStep, _⟩ := h.step hTextual
    ⟨a', hStep⟩
  rcases h with ⟨hNone, hEmpty, -⟩ | ⟨i, hOpened⟩
  · refine ⟨hEmpty ▸ Tree.wellBuilt_empty, Or.inl hNone, ?_, ?_, hTakes⟩
    · rw [hNone]
      exact .nil
    · rw [hNone]
      exact nofun
  · have hStanding := hOpened.tree.standing
    have hWf := hStanding.wellFormed
    refine ⟨hOpened.tree.wellBuilt hHoused, Or.inr ?_, ?_, fun j hj => ?_, hTakes⟩
    · rw [hOpened.openNodes]
      exact hOpened.tree.stacked.getLast?_eq hStanding
    · rw [hOpened.openNodes]
      refine (hWf.isChain_trail i).imp fun j p hp => ?_
      obtain ⟨n, hn⟩ := Tree.exists_node (Tree.lt_size_of_parent? hp)
      exact ⟨n, hn, hWf.parent_eq hn (Tree.parent?_eq_of_nodes hn ▸ hp)⟩
    · have hAt := hj
      rw [hOpened.openNodes] at hAt
      obtain ⟨n, hn⟩ := Tree.exists_node (hStanding.lt_size_of_open j hAt)
      refine ⟨n, hn, fun hRoot => ?_⟩
      obtain ⟨m, hRow, hPart⟩ := hOpened.tree.stacked.isPart_of_mem hStanding hAt hRoot
      rw [Tree.row_of_nodes hn] at hRow
      cases hRow
      exact ⟨hPart, hLive j hj hRoot n.bare (Tree.row_of_nodes hn)⟩

theorem housed_start : ({} : Assembly).tree.Housed :=
  fun _ _ _ hRow => absurd (Tree.lt_size_of_row hRow) (Nat.not_lt_zero _)

end Assembly

namespace Processor

/-- After any events the assembly of a processor is well built, and no event was at fault. -/
theorem processAll_wellBuilt (cwd project : String) (settings : Settings)
    (observers : List Observer) (events : List Event) (hTextual : ∀ e ∈ events, e.Textual) :
    ∃ p₀ p a, start cwd (.text project) settings true observers = .ok p₀ ∧
      p₀.processAll events = (p, none) ∧ p.assembly = some a ∧ a.WellBuilt := by
  have hStart := Assembly.represents_start
  obtain ⟨a, hSteps, hRepresents⟩ := hStart.steps hTextual
  have hIdle : (idle cwd (Path.normalize cwd project) settings true observers).assembly =
      some {} := rfl
  obtain ⟨p, hAll, hAssembly, -⟩ := processAll_eq hIdle hSteps
  refine ⟨_, p, a, rfl, hAll, hAssembly, hRepresents.wellBuilt ?_ ?_⟩
  · exact hStart.housed_steps hTextual hSteps Assembly.housed_start
  · exact hStart.live_steps hTextual hSteps Assembly.live_start

/-- An end before any start, a target that its project does not wait for, and a late report. -/
def unbalanced : List Event :=
  [ { kind := .taskFinished },
    { kind := .projectStarted, projectFile := .text "/p/a.csproj",
      properties := [("Configuration", "Debug"), ("configuration", "Release")] },
    { kind := .targetStarted, targetName := .text "Build" },
    { kind := .taskStarted, taskName := .text "Csc" },
    { kind := .projectFinished, succeeded := .bool true },
    { kind := .status, properties := [("CONFIGURATION", "Test"), ("Platform", "x64")] } ]

/-- A stream with no balance between what starts and what finishes. -/
theorem processAll_wellBuilt_unbalanced :
    (∀ e ∈ unbalanced, e.Textual) ∧
      ∃ p₀ p a, start "/" (.text "/p/a.csproj") {} true [] = .ok p₀ ∧
        p₀.processAll unbalanced = (p, none) ∧ p.assembly = some a ∧ a.WellBuilt ∧
        a.openNodes = [4, 1, 0] ∧ a.tree.nodes.toList.map (·.kind) =
          [.build, .project, .folder, .nameValue, .target, .task, .nameValue] := by
  have hTextual : ∀ e ∈ unbalanced, e.Textual := by decide
  obtain ⟨p₀, p, a, hStart, hAll, hAssembly, hBuilt⟩ :=
    processAll_wellBuilt "/" "/p/a.csproj" {} [] unbalanced hTextual
  refine ⟨hTextual, p₀, p, a, hStart, hAll, hAssembly, hBuilt, ?_⟩
  cases hStart
  cases hAll
  cases hAssembly
  exact ⟨rfl, rfl⟩

end Processor

end BuildDigest
