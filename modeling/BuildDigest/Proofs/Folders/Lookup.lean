import BuildDigest.Proofs.Folders.Holding

/-!
# Reading folders

What is read of a node are the tables that its folders hold. And what is read
stays as it is, whatever the folders hold, while things are put elsewhere: even a
search that ends with a fault goes on to end with it.

* `Tables.properties_eq`, `Tables.property_eq`, `Tables.itemGroups_eq` — the tables are read.
* `Tree.Alike` — two searches end alike; `Leaves.findChild_alike`.
* `Tree.SameReadings` — the same is read of a node; `Linked.sameReadings_of_puts`.
-/

namespace BuildDigest.Tree

variable {t t' : Tree} {F : Nat → Prop} {i f : Nat} {name : String}

-- ---------------------------------------------------------------------------
-- Tables are read
-- ---------------------------------------------------------------------------

theorem Room.findFolder_of_none (h : t.Room i) (hNone : t.foldersIn i (Text.lower name) = []) :
    t.findFolder (.int i) name = .ok none := by
  rw [findFolder_eq h.foldersText h.lt_size, hNone]
  rfl

/-- The only folder of a name is found. -/
theorem Room.findFolder_of_one (h : t.Room i) (hOne : t.foldersIn i (Text.lower name) = [f]) :
    ∃ n, t.findFolder (.int i) name = .ok (some n) ∧ n.index = f ∧ f < t.size ∧
      t.childrenAt f = t.nodesAt (t.kids f) := by
  have hMem : f ∈ t.foldersIn i (Text.lower name) := hOne ▸ List.mem_singleton_self f
  have hf := h.linked.lt_size i f (mem_foldersIn.mp hMem).1
  obtain ⟨n, hn⟩ := exists_node hf
  refine ⟨n, ?_, h.linked.index_of_nodes hn, hf, childrenAt_eq hf⟩
  rw [findFolder_eq h.foldersText h.lt_size, hOne, List.head?_cons, Option.bind_some, hn]

/-- Properties are read from the nodes that hold them. -/
theorem nodesAt_properties {js : List Nat} {entries : List (String × String × String)}
    (hAt : List.Forall₂ t.PropertyAt js entries) :
    ((t.nodesAt js).filter (·.kind = .nameValue)).map (fun n => (n.name, n.value.orEmpty)) =
      entries.map fun e => (.text e.2.1, .text e.2.2) := by
  induction hAt with
  | nil => rfl
  | @cons j e js rest hje _ ih =>
    obtain ⟨_, n, hRow, hKind, hName, hValue⟩ := hje
    obtain ⟨n, hn, rfl⟩ := row_eq_some_iff.mp hRow
    have hKind : n.kind = .nameValue := hKind
    have hName : n.name = .text e.2.1 := hName
    have hValue : n.value = .text e.2.2 := hValue
    rw [nodesAt_cons_of_nodes hn, List.filter_cons_of_pos (by simp [hKind]), List.map_cons, ih,
      List.map_cons, hName, hValue, Value.orEmpty_text]

/-- Items are read from the nodes that hold them, each in its place. -/
theorem nodesAt_items {js : List Nat} {items : List Item}
    (hAt : List.Forall₂ t.ItemAt js items) : (t.nodesAt js).filterMap (·.item) = items := by
  induction hAt with
  | nil => rfl
  | @cons j item js rest hj _ ih =>
    obtain ⟨n, hRow, hItem⟩ := hj
    obtain ⟨n, hn, rfl⟩ := row_eq_some_iff.mp hRow
    have hItem : n.item = some item := hItem
    rw [nodesAt_cons_of_nodes hn, List.filterMap_cons, hItem, ih]

/-- The items of each type are read from the children of its folder. -/
theorem nodesAt_typeFolders {js : List Nat} {entries : List (String × String × List Item)}
    (hAt : List.Forall₂ t.TypeFolderAt js entries) :
    (t.nodesAt js).map (fun n => (n.name, (t.nodesAt n.children).filterMap (·.item))) =
      entries.map fun e => (.text e.2.1, e.2.2) := by
  induction hAt with
  | nil => rfl
  | @cons g e js rest hg _ ih =>
    obtain ⟨_, ⟨n, hRow, _, hName⟩, hItems⟩ := hg
    obtain ⟨n, hn, rfl⟩ := row_eq_some_iff.mp hRow
    have hName : n.name = .text e.2.1 := hName
    rw [kids_of_nodes hn] at hItems
    rw [nodesAt_cons_of_nodes hn, List.map_cons, ih, List.map_cons, hName, nodesAt_items hItems]

/-- Entries under names that differ in lower case are tabulated in their order. -/
theorem tabulate_entries {α β : Type} {entries : List (String × String × α)}
    (hNodup : (entries.map (·.1)).Nodup) (hKey : ∀ e ∈ entries, e.1 = Text.lower e.2.1)
    (g : α → β) :
    Value.tabulate (entries.map fun e => (.text e.2.1, g e.2.2)) =
      .ok (entries.map fun e => (.text e.2.1, g e.2.2)) := by
  have hDistinct : ((entries.map fun e => (e.2.1, g e.2.2)).map (·.1)).Nodup := by
    apply List.Nodup.of_map Text.lower
    rw [List.map_map, List.map_map]
    rwa [List.map_congr_left hKey] at hNodup
  have hTable := Value.tabulate_map_text hDistinct
  rwa [List.map_map] at hTable

section

variable {m : Ordered String (String × String)} {k : Ordered String (String × List Item)}

/-- The properties of a node are those of its table. -/
theorem Tables.properties_eq (h : t.Tables i m k) (hRoom : t.Room i) :
    t.properties (.int i) = .ok (m.values.map fun p => (.text p.1, .text p.2)) := by
  rw [Tree.properties, Ordered.values, List.map_map]
  rcases h.properties with ⟨hNone, hEmpty⟩ | ⟨f, hOne, hAt⟩
  · rw [hRoom.findFolder_of_none hNone, hEmpty]
    rfl
  · obtain ⟨n, hFind, rfl, -, hChildren⟩ := hRoom.findFolder_of_one hOne
    have hKey : ∀ e ∈ m.entries, e.1 = Text.lower e.2.1 := fun e he => by
      obtain ⟨j, -, hKey, -⟩ := exists_of_mem_right hAt he
      exact hKey
    rw [hFind]
    simp only [hChildren, nodesAt_properties hAt]
    exact tabulate_entries h.nodupProperties hKey Value.text

/-- A property of a node is looked up in its table, in any spelling. -/
theorem Tables.property_eq (h : t.Tables i m k) (hRoom : t.Room i) (q : String) :
    t.property (.int i) (.text q) =
      .ok (Value.ofText? ((m.get? (Text.lower q)).map (·.2))) := by
  rw [property]
  rcases h.properties with ⟨hNone, hEmpty⟩ | ⟨f, hOne, hAt⟩
  · rw [hRoom.findFolder_of_none hNone, Ordered.get?, hEmpty]
    rfl
  · obtain ⟨n, hFind, rfl, hf, -⟩ := hRoom.findFolder_of_one hOne
    have hNames : ∀ j ∈ t.kids n.index, ∀ c, t.row j = some c → c.kind = .nameValue →
        ∃ s, c.name = .text s := by
      intro j hj c hRow _
      obtain ⟨e, -, -, c', hRow', -, hName, -⟩ := exists_of_mem_left hAt hj
      obtain rfl := Option.some.inj (hRow.symm.trans hRow')
      exact ⟨_, hName⟩
    rw [hFind]
    simp only [findChild_eq hf .nameValue q hNames]
    rw [Ordered.find?_eq_lookup_places hAt fun j e h => h.isNamed _]
    have hPlaces : ((m.places (t.kids n.index)).map (·.1)).Nodup := by
      rw [Ordered.map_places hAt.length_eq]
      exact h.nodupProperties
    cases hLookup : (m.places (t.kids n.index)).lookup (Text.lower q) with
    | none =>
      have hNot : Text.lower q ∉ m.keys := by
        refine Ordered.not_mem_keys_of_places hAt.length_eq fun j hj => ?_
        rw [(Ordered.lookup_eq_some_iff_mem hPlaces).mpr hj] at hLookup
        cases hLookup
      rw [Ordered.get?_eq_none_of_not_mem hNot]
      rfl
    | some j =>
      have hMem := (Ordered.lookup_eq_some_iff_mem hPlaces).mp hLookup
      obtain ⟨value, hGet, _, c, hRow, -, -, hValue⟩ := Ordered.exists_of_mem_places hAt hMem
      obtain ⟨c, hc, rfl⟩ := row_eq_some_iff.mp hRow
      have hValue : c.value = .text value.2 := hValue
      have hGet : m.get? (Text.lower q) = some value :=
        (Ordered.lookup_eq_some_iff_mem h.nodupProperties).mpr hGet
      rw [hGet, Option.bind_some, hc]
      exact congrArg Except.ok hValue

/-- The groups of the items of a node are those of its table. -/
theorem Tables.itemGroups_eq (h : t.Tables i m k) (hRoom : t.Room i) :
    t.itemGroups (.int i) = .ok (k.values.map fun g => (.text g.1, g.2)) := by
  rw [itemGroups, Ordered.values, List.map_map]
  rcases h.items with ⟨hNone, hEmpty⟩ | ⟨f, hOne, hAt⟩
  · rw [hRoom.findFolder_of_none hNone, hEmpty]
    rfl
  · obtain ⟨n, hFind, rfl, -, hChildren⟩ := hRoom.findFolder_of_one hOne
    have hKey : ∀ e ∈ k.entries, e.1 = Text.lower e.2.1 := fun e he => by
      obtain ⟨g, -, hKey, -⟩ := exists_of_mem_right hAt he
      exact hKey
    rw [hFind]
    simp only [hChildren, nodesAt_typeFolders hAt]
    exact tabulate_entries h.nodupItems hKey id

end

-- ---------------------------------------------------------------------------
-- Searches that end alike
-- ---------------------------------------------------------------------------

/-- Two searches end alike: with one fault, with nothing, or at one of some indices. -/
inductive Alike (t t' : Tree) (js : List Nat) :
    Except Fault (Option Node) → Except Fault (Option Node) → Prop
  | fault (fault : Fault) : Alike t t' js (.error fault) (.error fault)
  | nothing : Alike t t' js (.ok none) (.ok none)
  | node {j : Nat} {n n' : Node} (hj : j ∈ js) (hn : t.nodes[j]? = some n)
    (hn' : t'.nodes[j]? = some n') : Alike t t' js (.ok (some n)) (.ok (some n'))

/-- Searches that end alike among some indices end alike among more. -/
theorem Alike.mono {js js' : List Nat} {found found' : Except Fault (Option Node)}
    (h : Alike t t' js found found') (hjs : js ⊆ js') : Alike t t' js' found found' := by
  cases h with
  | fault fault => exact .fault fault
  | nothing => exact .nothing
  | node hj hn hn' => exact .node (hjs hj) hn hn'

/-- A node that is there is there later, with the same label. -/
theorem Leaves.nodes (h : Leaves F t t') {j : Nat} (hj : j < t.size) :
    ∃ n n', t.nodes[j]? = some n ∧ t'.nodes[j]? = some n' ∧ n'.label = n.label := by
  obtain ⟨n, hn⟩ := exists_node hj
  obtain ⟨m, hRow, hLabel⟩ := h.label j n.bare (row_eq_some_iff.mpr ⟨n, hn, rfl⟩)
  obtain ⟨n', hn', rfl⟩ := row_eq_some_iff.mp hRow
  exact ⟨n, n', hn, hn', hLabel⟩

/-- A search by kind and name goes by labels, so it ends alike in both trees. -/
theorem Leaves.findNode_alike (h : Leaves F t t') {js : List Nat} (hjs : ∀ j ∈ js, j < t.size)
    (kind : Node.Kind) (folded : Option String) :
    Alike t t' js (findNode kind folded (t.nodesAt js)) (findNode kind folded (t'.nodesAt js)) := by
  induction js with
  | nil => exact .nothing
  | cons j js ih =>
    rw [List.forall_mem_cons] at hjs
    have hRest := (ih hjs.2).mono (List.subset_cons_self j js)
    obtain ⟨n, n', hn, hn', hLabel⟩ := h.nodes hjs.1
    obtain ⟨hKind, hName, -, -⟩ := Node.label_eq_iff.mp hLabel
    have hHere : Alike t t' (j :: js) (.ok (some n)) (.ok (some n')) :=
      .node (List.mem_cons_self ..) hn hn'
    rw [nodesAt_cons_of_nodes hn, nodesAt_cons_of_nodes hn', findNode.eq_def kind folded (n :: _),
      findNode.eq_def kind folded (n' :: _)]
    simp only [hKind, hName]
    split
    · exact hRest
    · split
      · exact hHere
      · split
        · exact .fault _
        · split
          · exact hHere
          · exact hRest

/-- A search below a node that is left alone ends as it did. -/
theorem Leaves.findChild_alike (h : Leaves F t t') (hLinked : t.Linked) (hSize : i < t.size)
    (hi : F i) (kind : Node.Kind) (name : Value) :
    Alike t t' (t.kids i) (t.findChild (.int i) kind name) (t'.findChild (.int i) kind name) := by
  have hSize' := Nat.lt_of_lt_of_le hSize h.size_le
  rw [findChild, findChild, locate_natCast hSize, locate_natCast hSize']
  split
  · exact .fault _
  · simp only [childrenAt_eq hSize, childrenAt_eq hSize', h.kids i hi]
    exact h.findNode_alike (hLinked.lt_size i) kind _

/-- What is read of each node of a list by its label, and by what else is kept, is read of all. -/
theorem Leaves.filterMap_nodesAt {β : Type} (h : Leaves F t t') {js : List Nat}
    (hjs : ∀ j ∈ js, j < t.size) {g g' : Node → Option β}
    (hg : ∀ j ∈ js, ∀ n n', t.nodes[j]? = some n → t'.nodes[j]? = some n' →
      n'.label = n.label → g' n' = g n) :
    (t'.nodesAt js).filterMap g' = (t.nodesAt js).filterMap g := by
  rw [nodesAt, nodesAt, List.filterMap_filterMap, List.filterMap_filterMap]
  refine List.filterMap_congr fun j hj => ?_
  obtain ⟨n, n', hn, hn', hLabel⟩ := h.nodes (hjs j hj)
  rw [hn, hn', Option.bind_some, Option.bind_some, hg j hj n n' hn hn' hLabel]

-- ---------------------------------------------------------------------------
-- Readings that do not change
-- ---------------------------------------------------------------------------

/-- A child of a node that is left alone keeps its value. -/
theorem Leaves.value_of_nodes (h : Leaves F t t') (hf : F f) {j : Nat} (hj : j ∈ t.kids f)
    {n n' : Node} (hn : t.nodes[j]? = some n) (hn' : t'.nodes[j]? = some n') :
    n'.value = n.value :=
  h.value f hf j hj n.bare n'.bare (row_eq_some_iff.mpr ⟨n, hn, rfl⟩)
    (row_eq_some_iff.mpr ⟨n', hn', rfl⟩)

theorem Linked.mem_folderKids_of_findFolder (h : t.Linked) (hSize : i < t.size) {n : Node}
    (hFind : t.findFolder (.int i) name = .ok (some n)) : n.index ∈ t.folderKids i := by
  obtain ⟨hKid, hn, hKind⟩ := h.of_findChild hSize hFind
  exact mem_folderKids.mpr ⟨hKid, n.bare, row_eq_some_iff.mpr ⟨n, hn, rfl⟩, hKind⟩

/-- The same is read of a node in two trees. -/
structure SameReadings (t t' : Tree) (i : Nat) : Prop where
  properties : t'.properties (.int i) = t.properties (.int i)
  property : ∀ name, t'.property (.int i) name = t.property (.int i) name
  itemGroups : t'.itemGroups (.int i) = t.itemGroups (.int i)

/-- A search for a folder of a node that is left alone ends as it did, and the same nodes stand
below the folder that it finds, if that is left alone too. -/
theorem Leaves.findFolder_cases (h : Leaves F t t') (hLinked : t.Linked) (hLinked' : t'.Linked)
    (hSize : i < t.size) (hi : F i) (hF : ∀ f ∈ t.folderKids i, F f) (name : String) :
    (∃ fault, t.findFolder (.int i) name = .error fault ∧
      t'.findFolder (.int i) name = .error fault) ∨
    (t.findFolder (.int i) name = .ok none ∧ t'.findFolder (.int i) name = .ok none) ∨
    ∃ n n', t.findFolder (.int i) name = .ok (some n) ∧
      t'.findFolder (.int i) name = .ok (some n') ∧ n'.index = n.index ∧
      n.index ∈ t.folderKids i ∧ t.childrenAt n.index = t.nodesAt (t.kids n.index) ∧
      t'.childrenAt n.index = t'.nodesAt (t.kids n.index) := by
  have hAlike : Alike t t' (t.kids i) (t.findFolder (.int i) name) (t'.findFolder (.int i) name) :=
    h.findChild_alike hLinked hSize hi .folder (.text name)
  generalize hOld : t.findFolder (.int i) name = old at hAlike
  generalize t'.findFolder (.int i) name = new at hAlike
  cases hAlike with
  | fault fault => exact Or.inl ⟨fault, rfl, rfl⟩
  | nothing => exact Or.inr (Or.inl ⟨rfl, rfl⟩)
  | @node f n n' hf hn hn' =>
    have hMem := hLinked.mem_folderKids_of_findFolder hSize hOld
    have hfSize := hLinked.lt_size i f hf
    obtain rfl : n.index = f := hLinked.index_of_nodes hn
    refine Or.inr (Or.inr ⟨n, n', rfl, rfl, hLinked'.index_of_nodes hn', hMem,
      childrenAt_eq hfSize, ?_⟩)
    rw [childrenAt_eq (Nat.lt_of_lt_of_le hfSize h.size_le), h.kids _ (hF _ hMem)]

/-- The same is read of a node if it and its folders are left alone, and in its folders no items
come to nodes that are no folders. -/
theorem Leaves.sameReadings (h : Leaves F t t') (hLinked : t.Linked) (hLinked' : t'.Linked)
    (hSize : i < t.size) (hi : F i) (hF : ∀ f ∈ t.folderKids i, F f)
    (hItems : ∀ f ∈ t.folderKids i, ∀ g ∈ t.kids f, t'.itemsBelow g = t.itemsBelow g) :
    t.SameReadings t' i := by
  have hFind := h.findFolder_cases hLinked hLinked' hSize hi hF
  refine ⟨?_, fun q => ?_, ?_⟩
  · rw [Tree.properties, Tree.properties]
    obtain ⟨fault, hOld, hNew⟩ | ⟨hOld, hNew⟩ | ⟨n, n', hOld, hNew, hIndex, hMem, hKids, hKids'⟩ :=
      hFind propertiesFolder
    · rw [hOld, hNew]
    · rw [hOld, hNew]
    · rw [hOld, hNew]
      simp only [hIndex, hKids, hKids']
      rw [← List.filterMap_eq_map, List.filterMap_filter, List.filterMap_filter]
      refine congrArg Value.tabulate (h.filterMap_nodesAt (hLinked.lt_size _) ?_)
      intro j hj c c' hc hc' hLabel
      obtain ⟨hKind, hName, -, -⟩ := Node.label_eq_iff.mp hLabel
      simp only [Function.comp_apply, hKind, hName, h.value_of_nodes (hF _ hMem) hj hc hc']
  · rw [property, property]
    obtain ⟨fault, hOld, hNew⟩ | ⟨hOld, hNew⟩ | ⟨n, n', hOld, hNew, hIndex, hMem, -⟩ :=
      hFind propertiesFolder
    · rw [hOld, hNew]
    · rw [hOld, hNew]
    · rw [hOld, hNew]
      simp only [hIndex]
      have hAlike := h.findChild_alike hLinked (hLinked.lt_size_of_mem_folderKids hMem)
        (hF _ hMem) .nameValue q
      generalize t.findChild (.int n.index) .nameValue q = old at hAlike
      generalize t'.findChild (.int n.index) .nameValue q = new at hAlike
      cases hAlike with
      | fault => rfl
      | nothing => rfl
      | node hj hc hc' => exact congrArg Except.ok (h.value_of_nodes (hF _ hMem) hj hc hc')
  · rw [itemGroups, itemGroups]
    obtain ⟨fault, hOld, hNew⟩ | ⟨hOld, hNew⟩ | ⟨n, n', hOld, hNew, hIndex, hMem, hKids, hKids'⟩ :=
      hFind itemsFolder
    · rw [hOld, hNew]
    · rw [hOld, hNew]
    · rw [hOld, hNew]
      simp only [hIndex, hKids, hKids']
      rw [← List.filterMap_eq_map, ← List.filterMap_eq_map]
      refine congrArg Value.tabulate (h.filterMap_nodesAt (hLinked.lt_size _) ?_)
      intro g hg c c' hc hc' hLabel
      have hSame := hItems _ hMem g hg
      rw [itemsBelow, itemsBelow, ← filterMap_item_nodesAt, ← filterMap_item_nodesAt,
        kids_of_nodes hc, kids_of_nodes hc'] at hSame
      simp only [Function.comp_apply, (Node.label_eq_iff.mp hLabel).2.1, hSame]

theorem Leaves.itemsBelow_eq (h : Leaves F t t') (hLinked : t.Linked) (hf : F f) :
    t'.itemsBelow f = t.itemsBelow f := by
  rw [itemsBelow, itemsBelow, h.kids f hf, h.filterMap_item_eq (hLinked.lt_size f)]

/-- A report on a node that is no folder does not change what is read of any other node but its
folders. -/
theorem Linked.sameReadings_of_puts (h : t.Linked) {j : Nat} (hPuts : Puts (t.Inside j) t t')
    (hj : t.isFolderAt j = false) (hSize : i < t.size) (hij : i ≠ j) (hi : i ∉ t.ownFolders j) :
    t.SameReadings t' i := by
  have hLeaves := hPuts.leaves h
  have hOut := not_inside_of_not_mem hSize hij hi
  have hOwn {p c : Nat} (hKid : c ∈ t.kids p) (hc : c ∈ t.ownFolders i) :
      c < t.size ∧ ¬ t.Inside j c :=
    ⟨h.lt_size p c hKid, h.not_inside_of_mem_ownFolders hj hij
      (fun hMem => hi (mem_ownFolders.mpr (Or.inl hMem))) hc⟩
  refine hLeaves.sameReadings h (hPuts.linked h) hSize ⟨hSize, hOut⟩ (fun f hf => ?_)
    fun f hf g hg => ?_
  · exact hOwn (folderKids_subset hf) (mem_ownFolders.mpr (Or.inl hf))
  · cases hFolder : t.isFolderAt g with
    | false => exact hPuts.itemsBelow_eq h (h.lt_size f g hg) hFolder
    | true =>
      have hMem : g ∈ t.folderKids f := List.mem_filter.mpr ⟨hg, hFolder⟩
      exact hLeaves.itemsBelow_eq h (hOwn hg (mem_ownFolders.mpr (Or.inr ⟨f, hf, hMem⟩)))

end BuildDigest.Tree
