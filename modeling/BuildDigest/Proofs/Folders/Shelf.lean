import BuildDigest.Proofs.Folders.Lookup

/-!
# The folders of a project

In a well-formed tree it is known to which project each folder belongs, so the
tables that the folders of a project hold are kept while anything is put into the
tree that is not put into its own folders. Reports on one project do not touch the
folders of another.

* `Shelf` — the folders of a node hold a table of properties and one of items.
* `WellFormed.tables_iff` — they are the folders among its children.
* `Shelf.setProperties`, `Shelf.addItems`, `Shelf.report` — reports are added to the tables.
* `Shelf.spares` — nothing else changes them.
* `Shelf.properties_eq`, `Shelf.property_eq`, `Shelf.itemGroups_eq` — the tables are read.
-/

namespace BuildDigest.Tree

variable {t t' : Tree} {S : Nat → Prop} {i : Nat} {name : String}

/-- A folder of a node holds entries; without the folder there are none. -/
def Shelved {α : Type} (t : Tree) (i : Nat) (name : String) (R : Nat → α → Prop)
    (entries : List α) : Prop :=
  (t.foldersNamed i (Text.lower name) = [] ∧ entries = []) ∨
    ∃ f, t.foldersNamed i (Text.lower name) = [f] ∧ List.Forall₂ R (t.kids f) entries

/-- The folders of a node hold a table of properties and a table of items. -/
structure Shelf (t : Tree) (i : Nat) (m : Ordered String (String × String))
    (k : Ordered String (String × List Item)) : Prop where
  nodupProperties : m.keys.Nodup
  nodupItems : k.keys.Nodup
  properties : t.Shelved i propertiesFolder t.PropertyAt m.entries
  items : t.Shelved i itemsFolder t.TypeFolderAt k.entries

variable {m : Ordered String (String × String)} {k : Ordered String (String × List Item)}

-- ---------------------------------------------------------------------------
-- The folders in the tree
-- ---------------------------------------------------------------------------

theorem WellFormed.shelved_iff (hWf : t.WellFormed) {α : Type} {R : Tree → Nat → α → Prop}
    {entries : List α} : t.Shelved i name (R t) entries ↔ t.Stored i name R entries := by
  rw [Shelved, Stored, hWf.foldersNamed_eq]

/-- In a well-formed tree the folders of a node may be told by the children of the node or by their
parents. -/
theorem WellFormed.tables_iff (hWf : t.WellFormed) : t.Tables i m k ↔ t.Shelf i m k :=
  ⟨fun h => ⟨h.nodupProperties, h.nodupItems, hWf.shelved_iff.mpr h.properties,
      hWf.shelved_iff.mpr h.items⟩,
    fun h => ⟨h.nodupProperties, h.nodupItems, hWf.shelved_iff.mp h.properties,
      hWf.shelved_iff.mp h.items⟩⟩

/-- The folders of a node stand behind it. -/
theorem WellFormed.lt_of_mem_ownFolders (hWf : t.WellFormed) {p : Nat}
    (hp : p ∈ t.ownFolders i) : i < p := by
  have hRising {a b : Nat} (hb : b ∈ t.folderKids a) : a < b :=
    hWf.branching.rising a b (folderKids_subset hb)
  rcases mem_ownFolders.mp hp with hMem | ⟨f, hf, hMem⟩
  · exact hRising hMem
  · exact Nat.lt_trans (hRising hf) (hRising hMem)

/-- Every node of a well-formed tree whose names are texts has room for folders. -/
theorem WellFormed.room (hWf : t.WellFormed) (hNames : t.NamesText) (hi : i < t.size) :
    t.Room i where
  linked := hWf.branching.toLinked
  lt_size := hi
  apart hMem := Nat.lt_irrefl i (hWf.lt_of_mem_ownFolders hMem)
  foldersText := hNames.foldersText i

theorem WellFormed.shelf_empty (hWf : t.WellFormed) (hKids : t.kids i = []) :
    t.Shelf i .empty .empty := by
  refine hWf.tables_iff.mp (tables_empty fun key => ?_)
  rw [foldersIn, hKids, List.filter_nil]

theorem parent?_of_mem_foldersNamed {f : Nat} {key : String} (hf : f ∈ t.foldersNamed i key) :
    t.parent? f = some i := by
  obtain ⟨n, hRow, hParent, _⟩ := mem_foldersNamed.mp hf
  rw [parent?, hRow, Option.bind_some, hParent]

/-- A folder belongs to whom its node belongs to. -/
theorem WellFormed.owner_of_mem_folderKids (hWf : t.WellFormed) {f : Nat}
    (hf : f ∈ t.folderKids i) : t.owner f = t.owner i := by
  obtain ⟨hKid, n, hRow, hKind⟩ := mem_folderKids.mp hf
  refine hWf.owner_of_filing hRow ?_ (hWf.mem_kids.mp hKid)
  rw [hKind]
  rfl

/-- So do the folders in it. -/
theorem WellFormed.owner_of_mem_ownFolders (hWf : t.WellFormed) {p : Nat}
    (hp : p ∈ t.ownFolders i) : t.owner p = t.owner i := by
  rcases mem_ownFolders.mp hp with hMem | ⟨f, hf, hMem⟩
  · exact hWf.owner_of_mem_folderKids hMem
  · exact (hWf.owner_of_mem_folderKids hMem).trans (hWf.owner_of_mem_folderKids hf)

theorem WellFormed.owner_of_mem_foldersNamed (hWf : t.WellFormed) {f : Nat} {key : String}
    (hf : f ∈ t.foldersNamed i key) : t.owner f = t.owner i := by
  rw [hWf.foldersNamed_eq] at hf
  exact hWf.owner_of_mem_folderKids (mem_folderKids_of_mem_foldersIn hf)

-- ---------------------------------------------------------------------------
-- What leaves the folders alone
-- ---------------------------------------------------------------------------

/-- What spares nodes leaves them alone: their children are told by parents. -/
theorem Spares.leaves (h : Spares S t t') (hWf : t.WellFormed) (hWf' : t'.WellFormed) :
    Leaves (fun p => ¬ S p) t t' where
  size_le := h.size_le
  label j n hRow := by
    obtain ⟨n', hRow', hLabel, -⟩ := h.row j n hRow
    exact ⟨n', hRow', hLabel⟩
  kids _ hp := h.kids_eq hWf hWf' hp
  value p hp j hj n n' hRow hRow' := by
    have hParent : n.parentIndex = some p := by
      have hParent := hWf.mem_kids.mp hj
      rwa [parent?, hRow, Option.bind_some] at hParent
    obtain ⟨n'', hRow'', -, hValue⟩ := h.row j n hRow
    obtain rfl := Option.some.inj (hRow'.symm.trans hRow'')
    refine hValue fun q hq hSq => hp ?_
    rw [hParent] at hq
    exact Option.some.inj hq ▸ hSq

/-- The folders of a node are left alone by what spares all that it owns. -/
theorem Shelf.spares (h : t.Shelf i m k) (hSpares : Spares S t t') (hWf : t.WellFormed)
    (hWf' : t'.WellFormed) (hOwn : t.owner i = some i) (hS : ∀ p, t.owner p = some i → ¬ S p) :
    t'.Shelf i m k := by
  have hLeaves := hSpares.leaves hWf hWf'
  refine hWf'.tables_iff.mp ((hWf.tables_iff.mpr h).leaves hLeaves ?_ fun p hp => hS p ?_)
  · exact hLeaves.foldersIn_eq hWf.branching.toLinked (hS i hOwn)
  · rw [hWf.owner_of_mem_ownFolders hp, hOwn]

/-- What is filed for one node leaves the folders of all others alone. -/
theorem Shelf.filed_other {j : Nat} (h : t.Shelf i m k) (hWf : t.WellFormed)
    (hOwn : t.owner i = some i) (hFiled : Filed (t.Belongs j) t t') (hij : i ≠ j) :
    t'.Shelf i m k := by
  refine h.spares hFiled.spares hWf hFiled.wellFormed hOwn ?_
  rintro q hq (hNew | hOther)
  · have := lt_size_of_owner hq
    omega
  · rw [hq] at hOther
    exact hij (Option.some.inj hOther)

/-- A node that is logged leaves all folders alone. -/
theorem Shelf.add_logged (h : t.Shelf i m k) (hWf : t.WellFormed) {p : Nat} {r n : Node}
    (hRow : t.row p = some r) (hParent : r.kind.isFiling = false)
    (hLogged : n.kind.isFiling = false) : (t.add (.int p) n).Shelf i m k := by
  have hp := lt_size_of_row hRow
  have hNot {kind : Node.Kind} (hKind : kind.isFiling = false) : kind ≠ .folder := by
    rintro rfl
    cases hKind
  refine (wellFormed_add hWf hp n).tables_iff.mp
    ((hWf.tables_iff.mpr h).add hWf.branching.toLinked (hNot hLogged) fun q hq => ?_)
  -- the open node is no folder
  rw [host?_int hp, Option.mem_some_iff] at hq
  apply not_mem_ownFolders
  rw [← hq, isFolderAt, hRow, Option.any_some]
  exact decide_eq_false (hNot hParent)

-- ---------------------------------------------------------------------------
-- Reports
-- ---------------------------------------------------------------------------

/-- What is put in a report belongs to the node that is reported on. -/
theorem Puts.filed_belongs (h : Puts (t.Inside i) t t') (hWf : t.WellFormed)
    (hNames : t.NamesText) (hOwn : t.owner i = some i) : Filed (t.Belongs i) t t' := by
  refine (h.filed hWf hNames).mono ?_
  rintro p (rfl | hMem | hNew)
  · exact Or.inr hOwn
  · exact Or.inr ((hWf.owner_of_mem_ownFolders hMem).trans hOwn)
  · exact Or.inl hNew

/-- Reported properties are added to the table of properties. -/
theorem Shelf.setProperties (h : t.Shelf i m k) (hWf : t.WellFormed) (hNames : t.NamesText)
    (hi : i < t.size) (hOwn : t.owner i = some i) (ps : List (String × String)) :
    ∃ t', t.setProperties (.int i) (.object (ps.map fun p => (p.1, .text p.2))) = (t', none) ∧
      Filed (t.Belongs i) t t' ∧ t'.Shelf i (ps.foldl Filing.addProperty m) k := by
  have hRoom := hWf.room hNames hi
  obtain ⟨t', hSet, hTables⟩ := (hWf.tables_iff.mpr h).setProperties hRoom ps
  have hPuts := hRoom.linked.puts_setProperties hi (.object (ps.map fun p => (p.1, .text p.2)))
  rw [hSet] at hPuts
  have hFiled := hPuts.filed_belongs hWf hNames hOwn
  exact ⟨t', hSet, hFiled, hFiled.wellFormed.tables_iff.mp hTables⟩

/-- Reported items are added to the table of items. -/
theorem Shelf.addItems (h : t.Shelf i m k) (hWf : t.WellFormed) (hNames : t.NamesText)
    (hi : i < t.size) (hOwn : t.owner i = some i) (items : List Item) :
    ∃ t', t.addItems (.int i) items = (t', none) ∧ Filed (t.Belongs i) t t' ∧
      t'.Shelf i m (items.foldl Filing.addItem k) := by
  have hRoom := hWf.room hNames hi
  obtain ⟨t', hAdd, hTables⟩ := (hWf.tables_iff.mpr h).addItems hRoom items
  have hPuts := hRoom.linked.puts_addItems hi items
  rw [hAdd] at hPuts
  have hFiled := hPuts.filed_belongs hWf hNames hOwn
  exact ⟨t', hAdd, hFiled, hFiled.wellFormed.tables_iff.mp hTables⟩

/-- A report of properties and items is added to both tables. -/
theorem Shelf.report (h : t.Shelf i m k) (hWf : t.WellFormed) (hNames : t.NamesText)
    (hi : i < t.size) (hOwn : t.owner i = some i) (ps : List (String × String))
    (items : List Item) :
    ∃ t₁ t₂, t.setProperties (.int i) (.object (ps.map fun p => (p.1, .text p.2))) = (t₁, none) ∧
      t₁.addItems (.int i) items = (t₂, none) ∧ Filed (t.Belongs i) t t₁ ∧
      Filed (t.Belongs i) t t₂ ∧
      t₂.Shelf i (ps.foldl Filing.addProperty m) (items.foldl Filing.addItem k) := by
  obtain ⟨t₁, hSet, hFiled₁, hShelf₁⟩ := h.setProperties hWf hNames hi hOwn ps
  have hi₁ := Nat.lt_of_lt_of_le hi hFiled₁.spares.size_le
  have hOwn₁ : t₁.owner i = some i := by rw [hFiled₁.spares.owner_eq hWf hi, hOwn]
  obtain ⟨t₂, hAdd, hFiled₂, hShelf₂⟩ :=
    hShelf₁.addItems hFiled₁.wellFormed hFiled₁.namesText hi₁ hOwn₁ items
  -- what belongs to the node after the first writing is new or belonged to it before
  have hFiled := hFiled₁.trans (hFiled₂.mono fun p hp => hFiled₁.spares.belongs hWf hp)
  exact ⟨t₁, t₂, hSet, hAdd, hFiled₁, hFiled, hShelf₂⟩

-- ---------------------------------------------------------------------------
-- Readings
-- ---------------------------------------------------------------------------

theorem Shelf.properties_eq (h : t.Shelf i m k) (hWf : t.WellFormed) (hNames : t.NamesText)
    (hi : i < t.size) :
    t.properties (.int i) = .ok (m.values.map fun p => (.text p.1, .text p.2)) :=
  (hWf.tables_iff.mpr h).properties_eq (hWf.room hNames hi)

/-- A property of a node is looked up in its table, in any spelling. -/
theorem Shelf.property_eq (h : t.Shelf i m k) (hWf : t.WellFormed) (hNames : t.NamesText)
    (hi : i < t.size) (q : String) :
    t.property (.int i) (.text q) =
      .ok (Value.ofText? ((m.get? (Text.lower q)).map (·.2))) :=
  (hWf.tables_iff.mpr h).property_eq (hWf.room hNames hi) q

theorem Shelf.itemGroups_eq (h : t.Shelf i m k) (hWf : t.WellFormed) (hNames : t.NamesText)
    (hi : i < t.size) :
    t.itemGroups (.int i) = .ok (k.values.map fun g => (.text g.1, g.2)) :=
  (hWf.tables_iff.mpr h).itemGroups_eq (hWf.room hNames hi)

end BuildDigest.Tree
