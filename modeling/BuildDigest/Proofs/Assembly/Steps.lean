import BuildDigest.Proofs.Assembly.Entries

/-!
# Changes of a tree that represents a ledger

What an event changes in the tree of a build is what it changes in the ledger.

* `Represents.log` — a node of which the ledger takes no note.
* `Represents.enter`, `Represents.enterProject` — a node is opened.
* `Represents.line`, `Represents.data` — something is reported on a project.
* `Represents.leave`, `Represents.endBuild` — nodes are closed.
-/

namespace BuildDigest

open Ledger (Call Entry Frame)

/-- What stands at one place of two lists is related anew, and all else stays related. -/
theorem forall₂_modify {α β : Type} {R R' : α → β → Prop} {xs : List α} {ys : List β}
    (h : List.Forall₂ R xs ys) (hNodup : xs.Nodup) {k : Nat} {x : α} (hk : xs[k]? = some x)
    {f : β → β} (hHere : ∀ y, ys[k]? = some y → R x y → R' x (f y))
    (hOther : ∀ x' y, x' ∈ xs → x' ≠ x → R x' y → R' x' y) :
    List.Forall₂ R' xs (ys.modify k f) := by
  induction h generalizing k with
  | nil => simp at hk
  | @cons x' y xs ys hxy hRest ih =>
    rw [List.nodup_cons] at hNodup
    cases k with
    | zero =>
      obtain rfl : x' = x := by simpa using hk
      have hAway : ∀ z ∈ xs, z ∈ xs ∧ z ≠ x' := fun z hz => ⟨hz, fun hEq => hNodup.1 (hEq ▸ hz)⟩
      rw [List.modify_zero_cons]
      refine List.Forall₂.cons (hHere y rfl hxy) ?_
      exact ((List.forall₂_and_left _ _).mpr ⟨hAway, hRest⟩).imp fun z w hz =>
        hOther z w (List.mem_cons_of_mem x' hz.1.1) hz.1.2 hz.2
    | succ k =>
      have hk : xs[k]? = some x := by simpa using hk
      have hne : x' ≠ x := fun hEq => hNodup.1 (hEq ▸ List.mem_of_getElem? hk)
      rw [List.modify_succ_cons]
      refine List.Forall₂.cons (hOther x' y (List.mem_cons_self ..) hne hxy) ?_
      exact ih hNodup.2 hk hHere fun z w hz => hOther z w (List.mem_cons_of_mem x' hz)

namespace Tree

variable {t t' : Tree} {i j k : Nat} {l : Ledger} {n : Node}

theorem nodup_select (t : Tree) (P : Node → Bool) : (t.select P).Nodup :=
  (pairwise_select t P).imp Nat.ne_of_lt

/-- The root alone represents the ledger of which nothing was noted. -/
theorem Represents.root {n : Node} (hKind : n.kind = .build) (hName : ∃ s, n.name = .text s) :
    (empty.add .null n).Represents 0 {} where
  standing := standing_root hKind hName
  entries := by
    have hProject : (n.placed empty.size .null).isProject = false := by
      rw [Node.isProject, Node.placed, hKind]
      rfl
    rw [select_add, hProject]
    exact List.Forall₂.nil
  stacked := Stacked.root

theorem select_add_of_not {P : Node → Bool} {p : Nat} (h : P (n.placed t.size (.int p)) = false) :
    (t.add (.int p) n).select P = t.select P := by
  rw [select_add, h]
  exact List.append_nil _

/-- A node is logged of which the ledger takes no note. -/
theorem Represents.log (h : t.Represents i l) (hLogged : n.kind.isFiling = false)
    (hName : ∃ s, n.name = .text s) (hProject : n.isProject = false)
    (hLine : n.isLine = false ∨ Ledger.innermost l.frames = none) :
    (t.add (.int i) n).Represents i l where
  standing := h.standing.add hName
  entries := by
    rw [select_add_of_not hProject]
    refine h.entries.imp fun j b hEntry => ?_
    refine hEntry.add_other h.standing h.stacked hLogged fun hBoth => ?_
    rcases hLine with hLine | hNone
    · rw [hLine] at hBoth
      cases hBoth.1
    · rw [h.stacked.find?_project h.standing, hNone] at hBoth
      cases hBoth.2
  stacked := h.stacked.spares_of_eq (spares_add t i n) (select_add_of_not hProject)

/-- A node opened that is no project and no command line is a frame, and no entry changes. -/
theorem Represents.enter (h : t.Represents i l) (hLogged : n.kind.isFiling = false)
    (hName : ∃ s, n.name = .text s) (hProject : n.isProject = false) (hLine : n.isLine = false)
    {frame : Frame} (hFrame : (t.add (.int i) n).FrameAt t.size frame) :
    (t.add (.int i) n).Represents t.size (l.enter frame) where
  standing := h.standing.add_open hName
  entries := (h.log hLogged hName hProject (Or.inl hLine)).entries
  stacked := Stacked.push (parent?_add_size t i n) hFrame
    (h.log hLogged hName hProject (Or.inl hLine)).stacked

/-- A project opened is an entry with its file, and its frame is the innermost one. -/
theorem Represents.enterProject (h : t.Represents i l) {file : String} (hKind : n.kind = .project)
    (hName : ∃ s, n.name = .text s) (hFile : n.projectFile = .text file)
    (hFinished : n.finished.holds = false) :
    (t.add (.int i) n).Represents t.size
      { entries := l.entries ++ [{ file }], frames := .project l.entries.length :: l.frames } := by
  have hProject : (n.placed t.size (.int i)).isProject = true := decide_eq_true hKind
  have hSelect : (t.add (.int i) n).select Node.isProject =
      t.select Node.isProject ++ [t.size] := by
    rw [select_add, hProject, if_pos rfl]
  have hLine : n.isLine = false := by
    rw [Node.isLine, hKind]
    rfl
  refine ⟨h.standing.add_open hName, ?_, ?_⟩
  · -- the projects that are there keep their entries, and the new one has nothing reported
    rw [hSelect]
    refine List.rel_append (h.entries.imp fun j b hEntry => ?_) ?_
    · refine hEntry.add_other h.standing h.stacked (by rw [hKind]; rfl) fun hBoth => ?_
      rw [hLine] at hBoth
      cases hBoth.1
    · exact List.Forall₂.cons (h.standing.entryAt_new hKind hFile hFinished) List.Forall₂.nil
  · refine Stacked.push (parent?_add_size t i n) ?_ (h.stacked.spares (spares_add t i n) ?_)
    · -- the project is the last one, and its entry is the last entry
      have hLength := h.entries.length_eq
      rw [FrameAt, hSelect, ← hLength, List.getElem?_concat_length]
    · rw [hSelect]
      exact List.prefix_append _ _

/-- A command line logged is a call of the innermost project, with the targets that are open around
it. -/
theorem Represents.line (h : t.Represents i l) (hk : Ledger.innermost l.frames = some k) {c : Call}
    (hTargets : c.targets = Ledger.openTargets l.frames) (hKind : n.kind = .commandLine)
    (hName : n.name = .text c.task) (hValue : n.value.orEmpty = .text c.text) :
    (t.add (.int i) n).Represents i { l with entries := l.entries.modify k (·.addCall c) } := by
  have hFind := h.stacked.find?_project h.standing
  rw [hk, Option.bind_some] at hFind
  have hProject : (n.placed t.size (.int i)).isProject = false := by
    rw [Node.isProject, Node.placed, hKind]
    rfl
  refine ⟨h.standing.add ⟨_, hName⟩, ?_, ?_⟩
  · rw [select_add_of_not hProject]
    cases hj : (t.select Node.isProject)[k]? with
    | none =>
      -- a frame of a project has an entry, so this is no case
      obtain ⟨j, hj'⟩ := h.stacked.exists_project hk
      rw [hj] at hj'
      cases hj'
    | some j =>
      rw [hj] at hFind
      refine forall₂_modify h.entries (nodup_select t _) hj ?_ ?_
      · exact fun b _ hEntry =>
          hEntry.add_line h.standing h.stacked hFind hTargets hKind hName hValue
      · intro j' b _ hne hEntry
        refine hEntry.add_other h.standing h.stacked (by rw [hKind]; rfl) fun hBoth => ?_
        rw [hFind] at hBoth
        exact hne (Option.some.inj hBoth.2).symm
  · exact h.stacked.spares_of_eq (spares_add t i n) (select_add_of_not hProject)

theorem select_finishing (t : Tree) (i : Nat) (v : Value) :
    (t.change i (finishing v)).select Node.isProject = t.select Node.isProject :=
  select_change (keeps_finishing v) (fun _ => rfl) t i

/-- A node that is no project is not the project of an entry. -/
theorem ProjectAt.ne_of_kind {b : Entry} (h : t.ProjectAt j b) {r : Node} (hRow : t.row i = some r)
    (hKind : r.kind ≠ .project) : j ≠ i := by
  rintro rfl
  obtain ⟨m, hm, hProject, _⟩ := h
  rw [hRow] at hm
  obtain rfl := Option.some.inj hm
  exact hKind hProject

theorem Standing.finishing (h : t.Standing i) (v : Value) (j : Nat) :
    (t.change j (finishing v)).Standing i :=
  h.change (keeps_finishing v) (fun _ => rfl) (fun _ => rfl) j

/-- Finishing a node that is neither a project nor a command line leaves all entries. -/
theorem Represents.entries_finishing (h : t.Represents i l) {r : Node} (hRow : t.row j = some r)
    (hProject : r.kind ≠ .project) (hLine : r.kind ≠ .commandLine) (v : Value) :
    List.Forall₂ (t.change j (finishing v)).EntryAt
      ((t.change j (finishing v)).select Node.isProject) l.entries := by
  rw [select_finishing]
  exact h.entries.imp fun j' b hEntry => hEntry.finish_other h.standing.wellFormed v hRow hLine
    (hEntry.project.ne_of_kind hRow hProject)

/-- The innermost open node is closed. -/
theorem Represents.leave (h : t.Represents i l) {p : Nat} (hp : t.parent? i = some p) (v : Value) :
    (t.change i (finishing v)).Represents p (l.leave v.holds) := by
  have hWf := h.standing.wellFormed
  have hSpares := spares_finishing v t i
  obtain ⟨entries, frames⟩ := l
  have hStacked : t.Stacked i frames := h.stacked
  cases hStacked with
  | root =>
    -- the root has no parent
    have := hWf.lt_of_parent? hp
    omega
  | @push _ p' frame frames hParent hHere hAbove =>
    rw [hParent] at hp
    obtain rfl := Option.some.inj hp
    have hStanding := (h.standing.above hParent).finishing v i
    have hStacked' := hAbove.spares_of_eq hSpares (select_finishing t i v)
    -- only a project has an entry that finishes with it
    cases frame with
    | project k =>
      refine ⟨hStanding, ?_, hStacked'⟩
      rw [select_finishing]
      obtain ⟨r, hRow, hProject⟩ := mem_select.mp (List.mem_of_getElem? hHere)
      have hKind : r.kind = .project := of_decide_eq_true hProject
      refine forall₂_modify h.entries (nodup_select t _) hHere ?_ ?_
      · exact fun b _ hEntry => hEntry.finish hWf v
      · exact fun j b _ hne hEntry =>
          hEntry.finish_other hWf v hRow (by rw [hKind]; nofun) hne
    | target name | task name =>
      obtain ⟨r, hRow, hKind, _⟩ := hHere
      exact ⟨hStanding, h.entries_finishing hRow (by rw [hKind]; nofun) (by rw [hKind]; nofun) v,
        hStacked'⟩

/-- The build ends: the root finishes, and all else is closed. -/
theorem Represents.endBuild (h : t.Represents i l) (v : Value) :
    (t.change 0 (finishing v)).Represents 0 { l with frames := [] } := by
  obtain ⟨r, hRow, hKind⟩ := h.standing.root
  exact ⟨h.standing.climb_root.finishing v 0,
    h.entries_finishing hRow (by rw [hKind]; nofun) (by rw [hKind]; nofun) v, Stacked.root⟩

/-- A report on a project stays in the folders of the project. -/
theorem Represents.report (h : t.Represents i l) (hj : (t.select Node.isProject)[k]? = some j)
    (e : Event) :
    ∃ t₁ t₂ b, t.setProperties (.int j) e.propertiesValue = (t₁, none) ∧
      t₁.addItems (.int j) e.items = (t₂, none) ∧ Filed (t.Belongs j) t t₂ ∧
      l.entries[k]? = some b ∧
      t₂.Shelf j (e.properties.foldl Filing.addProperty (Filing.properties b.properties))
        (e.items.foldl Filing.addItem (Filing.items b.items)) := by
  obtain ⟨hk, hjk⟩ := List.getElem?_eq_some_iff.mp hj
  have hk' : k < l.entries.length := h.entries.length_eq ▸ hk
  have hEntry : t.EntryAt j l.entries[k] := hjk ▸ h.entries.get hk hk'
  have hOwn := hEntry.project.owner
  obtain ⟨t₁, t₂, hSet, hAdd, -, hFiled, hShelf⟩ := hEntry.shelf.report h.standing.wellFormed
    h.standing.namesText (lt_size_of_owner hOwn) hOwn e.properties e.items
  exact ⟨t₁, t₂, l.entries[k], hSet, hAdd, hFiled, List.getElem?_eq_getElem hk', hShelf⟩

/-- Properties and items are reported on a project. -/
theorem Represents.data (h : t.Represents i l) (hj : (t.select Node.isProject)[k]? = some j)
    (e : Event) :
    ∃ t₁ t₂, t.setProperties (.int j) e.propertiesValue = (t₁, none) ∧
      t₁.addItems (.int j) e.items = (t₂, none) ∧ t₂.trail i = t.trail i ∧
      t₂.Represents i { l with entries := l.entries.modify k (·.addData e) } := by
  have hWf := h.standing.wellFormed
  obtain ⟨t₁, t₂, b, hSet, hAdd, hFiled, hHere, hShelf⟩ := h.report hj e
  have hSelect : t₂.select Node.isProject = t.select Node.isProject := by
    refine hFiled.select_eq isProject_congr fun n hn => ?_
    have hKind : n.kind = .project := of_decide_eq_true hn
    rw [hKind]
    rfl
  refine ⟨t₁, t₂, hSet, hAdd, hFiled.spares.trail_eq h.standing.isOpen,
    h.standing.filed hFiled, ?_, ?_⟩
  · -- no other project sees what was filed for this one
    rw [hSelect]
    refine forall₂_modify h.entries (nodup_select t _) hj ?_ ?_
    · intro b' hb' hEntry
      rw [hHere] at hb'
      obtain rfl := Option.some.inj hb'
      exact hEntry.filed hWf hFiled e hShelf
    · exact fun j' b _ hne hOther => hOther.filed_other hWf hFiled hne
  · exact h.stacked.spares_of_eq hFiled.spares hSelect

end Tree

end BuildDigest
