import BuildDigest.Proofs.Assembly.Represents

/-!
# Entries while the tree grows

A node that is logged, a node that finishes and what is filed for a project each
change the entry of one project at most, and leave the entries of all others as
they are.

* `EntryAt.add_other`, `EntryAt.add_line` — a node is logged below the innermost open one.
* `EntryAt.change_other`, `EntryAt.finish` — a node finishes.
* `EntryAt.filed_other`, `EntryAt.filed` — something is filed for a project.
-/

namespace BuildDigest

open Ledger (Call Entry Frame)

namespace Tree

variable {t t' : Tree} {i j d : Nat} {b : Entry} {n : Node} {frames : List Frame}

theorem isProjectAt_add (t : Tree) (p : Nat) (n : Node) (hj : j < t.size) :
    (t.add (.int p) n).isProjectAt j = t.isProjectAt j :=
  (spares_add t p n).isProjectAt_eq hj

/-- Logging a node below the innermost open one gives a new command line to the innermost project
above it, and to no other. -/
theorem Standing.linesOf_add (h : t.Standing i) (n : Node) (j : Nat) :
    (t.add (.int i) n).linesOf j =
      t.linesOf j ++
        if n.isLine = true ∧ (i :: t.trail i).find? t.isProjectAt = some j then [t.size]
        else [] := by
  have hSpares := spares_add t i n
  have hOld : (t.select Node.isLine).filter (fun d => (t.add (.int i) n).projectAbove d = some j) =
      t.linesOf j := by
    refine List.filter_congr fun d hd => ?_
    rw [hSpares.projectAbove_eq h.wellFormed (lt_size_of_mem_select hd)]
  have hNew : (t.add (.int i) n).projectAbove t.size =
      (i :: t.trail i).find? t.isProjectAt := by
    rw [projectAbove, trail_add_size h.isOpen]
    exact List.find?_congr fun k hk => hSpares.isProjectAt_eq (h.lt_size_of_open k hk)
  have hLine : (n.placed t.size (.int i)).isLine = n.isLine := rfl
  rw [linesOf, select_add, List.filter_append, hOld, hLine]
  cases n.isLine with
  | true =>
    rw [if_pos rfl, List.filter_singleton, hNew]
    simp
  | false => simp

theorem Standing.callAt_add (h : t.Standing i) {d : Nat} {c : Call} (hCall : t.CallAt d c)
    (n : Node) : (t.add (.int i) n).CallAt d c :=
  hCall.spares (spares_add t i n) h.wellFormed fun m hRow _ => by
    rw [row_add_of_lt (lt_size_of_row hRow), hRow]

theorem ProjectAt.add (h : t.ProjectAt j b) (parent : Value) (n : Node) :
    (t.add parent n).ProjectAt j b := by
  obtain ⟨m, hRow, hRest⟩ := h
  exact ⟨m, by rw [row_add_of_lt (lt_size_of_row hRow), hRow], hRest⟩

/-- Logging a node leaves what is filed for a project. -/
theorem EntryAt.shelf_add (h : t.EntryAt j b) (hStanding : t.Standing i)
    (hStacked : t.Stacked i frames) (hLogged : n.kind.isFiling = false) :
    (t.add (.int i) n).Shelf j (Filing.properties b.properties) (Filing.items b.items) := by
  obtain ⟨r, hRow, hOpen⟩ := hStacked.isLogged hStanding
  exact h.shelf.add_logged hStanding.wellFormed hRow hOpen hLogged

/-- A node that is no command line of a project leaves the entry of the project. -/
theorem EntryAt.add_other (h : t.EntryAt j b) (hStanding : t.Standing i)
    (hStacked : t.Stacked i frames) (hLogged : n.kind.isFiling = false)
    (hOther : ¬ (n.isLine = true ∧ (i :: t.trail i).find? t.isProjectAt = some j)) :
    (t.add (.int i) n).EntryAt j b where
  project := h.project.add _ n
  shelf := h.shelf_add hStanding hStacked hLogged
  calls := by
    rw [hStanding.linesOf_add, if_neg hOther, List.append_nil]
    exact h.calls.imp fun d c hCall => hStanding.callAt_add hCall n

/-- A command line that is logged inside the project. -/
theorem EntryAt.add_line (h : t.EntryAt j b) (hStanding : t.Standing i)
    (hStacked : t.Stacked i frames) (hFind : (i :: t.trail i).find? t.isProjectAt = some j)
    {c : Call} (hTargets : c.targets = Ledger.openTargets frames) (hKind : n.kind = .commandLine)
    (hName : n.name = .text c.task) (hValue : n.value.orEmpty = .text c.text) :
    (t.add (.int i) n).EntryAt j (b.addCall c) where
  project := by
    obtain ⟨m, hRow, hRest⟩ := h.project.add (.int i) n
    exact ⟨m, hRow, hRest⟩
  shelf := h.shelf_add hStanding hStacked (by rw [hKind]; rfl)
  calls := by
    have hSpares := spares_add t i n
    have hLine : n.isLine = true := decide_eq_true hKind
    rw [hStanding.linesOf_add, if_pos ⟨hLine, hFind⟩]
    refine List.rel_append (h.calls.imp fun d c hCall => hStanding.callAt_add hCall n) ?_
    refine List.Forall₂.cons ⟨?_, _, row_add_size t _ n, hKind, hName, hValue⟩ List.Forall₂.nil
    -- the way up from the new node is that from the open one, which the frames know
    have hTake : (i :: t.trail i).takeWhile (fun k => !(t.add (.int i) n).isProjectAt k) =
        (i :: t.trail i).takeWhile fun k => !t.isProjectAt k :=
      takeWhile_congr fun k hk => by rw [isProjectAt_add t i n (hStanding.lt_size_of_open k hk)]
    rw [hTargets, ← hStacked.targets hStanding, targetsAround, trail_add_size hStanding.isOpen,
      hTake]
    refine List.filterMap_congr fun k hk => ?_
    exact (hSpares.targetNameAt_eq
      (hStanding.lt_size_of_open k (List.takeWhile_subset _ hk))).symm

/-- A project that has just come holds an entry with its file and nothing else. -/
theorem Standing.entryAt_new (h : t.Standing i) {file : String} (hKind : n.kind = .project)
    (hFile : n.projectFile = .text file) (hFinished : n.finished.holds = false) :
    (t.add (.int i) n).EntryAt t.size { file } where
  project := ⟨_, row_add_size t _ n, hKind, hFile, hFinished, nofun⟩
  shelf := by
    apply (wellFormed_add h.wellFormed h.isOpen n).shelf_empty
    rw [kids_add h.isOpen, kids_size, if_neg (Nat.ne_of_gt h.isOpen)]
    rfl
  calls := by
    -- nothing stood below a node that was not there
    have hNone : (t.add (.int i) n).linesOf t.size = [] := by
      have hNotOpen : (i :: t.trail i).find? t.isProjectAt ≠ some t.size := by
        intro hFind
        have := h.lt_size_of_open _ (List.mem_of_find?_eq_some hFind)
        omega
      rw [h.linesOf_add, if_neg fun hBoth => hNotOpen hBoth.2, List.append_nil, linesOf,
        List.filter_eq_nil_iff]
      intro d hd hAbove
      have hAbove := of_decide_eq_true hAbove
      have := h.wellFormed.lt_of_mem_trail (List.mem_of_find?_eq_some hAbove)
      have := lt_size_of_mem_select hd
      omega
    rw [hNone]
    exact List.Forall₂.nil

-- ---------------------------------------------------------------------------
-- A node finishes
-- ---------------------------------------------------------------------------

def finishing (succeeded : Value) (n : Node) : Node :=
  { n with finished := .bool true, succeeded }

theorem keeps_finishing (v : Value) : Node.Keeps (finishing v) where
  bare _ := rfl
  children _ := rfl
  index _ := rfl
  parent _ := rfl
  kind _ := rfl
  name _ := rfl

theorem spares_finishing (v : Value) (t : Tree) (i : Nat) :
    Spares (fun _ => False) t (t.change i (finishing v)) :=
  spares_change (keeps_finishing v) (fun _ => rfl) (fun _ => rfl) t i

theorem ProjectAt.owner (h : t.ProjectAt j b) : t.owner j = some j := by
  obtain ⟨n, hRow, hKind, _⟩ := h
  exact owner_of_logged hRow (by rw [hKind]; rfl)

/-- Finishing a node leaves what is filed for a project. -/
theorem EntryAt.shelf_finishing (h : t.EntryAt j b) (hWf : t.WellFormed) (v : Value) (i : Nat) :
    (t.change i (finishing v)).Shelf j (Filing.properties b.properties) (Filing.items b.items) :=
  h.shelf.spares (spares_finishing v t i) hWf (wellFormed_change (keeps_finishing v) hWf i)
    h.project.owner fun _ _ => not_false

/-- Finishing a node that is no command line leaves the calls of a project. -/
theorem EntryAt.calls_finishing (h : t.EntryAt j b) (hWf : t.WellFormed) (v : Value)
    (hRow : t.row i = some n) (hKind : n.kind ≠ .commandLine) :
    List.Forall₂ (t.change i (finishing v)).CallAt ((t.change i (finishing v)).linesOf j)
      b.calls := by
  have hSpares := spares_finishing v t i
  have hLines : (t.change i (finishing v)).linesOf j = t.linesOf j := by
    rw [linesOf, select_change (keeps_finishing v) (fun _ => rfl), linesOf]
    refine List.filter_congr fun d hd => ?_
    rw [hSpares.projectAbove_eq hWf (lt_size_of_mem_select hd)]
  rw [hLines]
  refine h.calls.imp fun d c hCall => hCall.spares hSpares hWf fun m hm hLine => ?_
  have hdi : d ≠ i := by
    rintro rfl
    rw [hRow] at hm
    obtain rfl := Option.some.inj hm
    exact hKind hLine
  rw [row_change (keeps_finishing v), if_neg hdi, hm]

/-- Finishing another node leaves the entry of a project. -/
theorem EntryAt.finish_other (h : t.EntryAt j b) (hWf : t.WellFormed) (v : Value)
    (hRow : t.row i = some n) (hKind : n.kind ≠ .commandLine) (hji : j ≠ i) :
    (t.change i (finishing v)).EntryAt j b where
  project := by
    obtain ⟨m, hm, hRest⟩ := h.project
    exact ⟨m, by rw [row_change (keeps_finishing v), if_neg hji, hm], hRest⟩
  shelf := h.shelf_finishing hWf v i
  calls := h.calls_finishing hWf v hRow hKind

/-- The project finishes. -/
theorem EntryAt.finish (h : t.EntryAt j b) (hWf : t.WellFormed) (v : Value) :
    (t.change j (finishing v)).EntryAt j (b.finish v.holds) where
  project := by
    obtain ⟨m, hm, hKind, hFile, _⟩ := h.project
    refine ⟨finishing v m, ?_, hKind, hFile, rfl, fun ok hok => Option.some.inj hok⟩
    rw [row_change (keeps_finishing v), if_pos rfl, hm, Option.map_some]
  shelf := h.shelf_finishing hWf v j
  calls := by
    obtain ⟨m, hm, hKind, _⟩ := h.project
    exact h.calls_finishing hWf v hm (by rw [hKind]; nofun)

-- ---------------------------------------------------------------------------
-- Something is filed
-- ---------------------------------------------------------------------------

/-- Filing leaves the calls of a project. -/
theorem EntryAt.calls_filed {S : Nat → Prop} (h : t.EntryAt j b) (hWf : t.WellFormed)
    (hFiled : Filed S t t') : List.Forall₂ t'.CallAt (t'.linesOf j) b.calls := by
  have hSelect : t'.select Node.isLine = t.select Node.isLine := by
    refine hFiled.select_eq isLine_congr fun n hn => ?_
    have hKind : n.kind = .commandLine := of_decide_eq_true hn
    rw [hKind]
    rfl
  have hLines : t'.linesOf j = t.linesOf j := by
    rw [linesOf, hSelect, linesOf]
    refine List.filter_congr fun d hd => ?_
    rw [hFiled.spares.projectAbove_eq hWf (lt_size_of_mem_select hd)]
  rw [hLines]
  refine h.calls.imp fun d c hCall => hCall.spares hFiled.spares hWf fun m hm hKind => ?_
  exact hFiled.logged d m hm (by rw [hKind]; rfl)

/-- Filing leaves the node of a project. -/
theorem EntryAt.project_filed {S : Nat → Prop} (h : t.EntryAt j b) (hFiled : Filed S t t') :
    t'.ProjectAt j b := by
  obtain ⟨m, hm, hKind, hRest⟩ := h.project
  exact ⟨m, hFiled.logged j m hm (by rw [hKind]; rfl), hKind, hRest⟩

/-- Filing for another project leaves the entry of a project. -/
theorem EntryAt.filed_other (h : t.EntryAt j b) (hWf : t.WellFormed)
    (hFiled : Filed (t.Belongs i) t t') (hji : j ≠ i) : t'.EntryAt j b where
  project := h.project_filed hFiled
  shelf := h.shelf.filed_other hWf h.project.owner hFiled hji
  calls := h.calls_filed hWf hFiled

/-- Properties and items are filed for the project. -/
theorem EntryAt.filed (h : t.EntryAt j b) (hWf : t.WellFormed) {S : Nat → Prop}
    (hFiled : Filed S t t') (e : Event)
    (hShelf : t'.Shelf j (e.properties.foldl Filing.addProperty (Filing.properties b.properties))
      (e.items.foldl Filing.addItem (Filing.items b.items))) : t'.EntryAt j (b.addData e) where
  project := h.project_filed hFiled
  shelf := by
    have hProperties : Filing.properties (b.properties ++ e.properties) =
        e.properties.foldl Filing.addProperty (Filing.properties b.properties) :=
      List.foldl_append
    have hItems : Filing.items (b.items ++ e.items) =
        e.items.foldl Filing.addItem (Filing.items b.items) :=
      List.foldl_append
    rw [Entry.addData, hProperties, hItems]
    exact hShelf
  calls := h.calls_filed hWf hFiled

end Tree

end BuildDigest
