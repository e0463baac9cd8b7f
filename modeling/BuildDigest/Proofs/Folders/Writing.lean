import BuildDigest.Proofs.Folders.Filing
import BuildDigest.Proofs.Folders.Puts

/-!
# Writing into folders

The children of a folder hold a table when they hold its entries in order.
Properties and items that are written into a folder are added to its table.

* `PropertyAt`, `TypeFolderAt` — a node holds an entry.
* `Linked.writeProperties_eq`, `Linked.fileItems_eq` — the table after writing.
* `PropertyAt.leaves`, `TypeFolderAt.leaves` — nothing else changes an entry.
-/

namespace BuildDigest.Tree

variable {t t' : Tree} {F : Nat → Prop} {i f : Nat}

-- ---------------------------------------------------------------------------
-- Entries of tables
-- ---------------------------------------------------------------------------

/-- A node holds a property of a table. -/
def PropertyAt (t : Tree) (j : Nat) (e : String × String × String) : Prop :=
  e.1 = Text.lower e.2.1 ∧ ∃ n, t.row j = some n ∧ n.kind = .nameValue ∧
    n.name = .text e.2.1 ∧ n.value = .text e.2.2

def ItemAt (t : Tree) (j : Nat) (item : Item) : Prop :=
  ∃ n, t.row j = some n ∧ n.item = some item

/-- A folder holds the items of a type. -/
def TypeFolderAt (t : Tree) (g : Nat) (e : String × String × List Item) : Prop :=
  e.1 = Text.lower e.2.1 ∧
    (∃ n, t.row g = some n ∧ n.kind = .folder ∧ n.name = .text e.2.1) ∧
    List.Forall₂ t.ItemAt (t.kids g) e.2.2

theorem PropertyAt.add {j : Nat} {e : String × String × String} (h : t.PropertyAt j e)
    (parent : Value) (n : Node) : (t.add parent n).PropertyAt j e := by
  obtain ⟨hKey, m, hRow, hRest⟩ := h
  exact ⟨hKey, m, by rw [row_add_of_lt (lt_size_of_row hRow), hRow], hRest⟩

/-- A property is met by its name in lower case. -/
theorem PropertyAt.isNamed {j : Nat} {e : String × String × String} (h : t.PropertyAt j e)
    (key : String) : (t.row j).any (Node.isNamed .nameValue key) = decide (key = e.1) := by
  obtain ⟨hKey, n, hRow, hKind, hName, _⟩ := h
  rw [hRow, Option.any_some, Node.isNamed, Node.foldedName, hKind, hName, hKey]
  simp [eq_comm]

theorem ItemAt.add {j : Nat} {item : Item} (h : t.ItemAt j item) (parent : Value) (n : Node) :
    (t.add parent n).ItemAt j item := by
  obtain ⟨m, hRow, hItem⟩ := h
  exact ⟨m, by rw [row_add_of_lt (lt_size_of_row hRow), hRow], hItem⟩

theorem TypeFolderAt.lt_size {g : Nat} {e : String × String × List Item}
    (h : t.TypeFolderAt g e) : g < t.size := by
  obtain ⟨_, ⟨n, hRow, _⟩, _⟩ := h
  exact lt_size_of_row hRow

/-- The folder of a type is met by the type in lower case. -/
theorem TypeFolderAt.isNamed {g : Nat} {e : String × String × List Item}
    (h : t.TypeFolderAt g e) (key : String) :
    (t.row g).any (Node.isNamed .folder key) = decide (key = e.1) := by
  obtain ⟨hKey, ⟨n, hRow, hKind, hName⟩, _⟩ := h
  rw [hRow, Option.any_some, Node.isNamed, Node.foldedName, hKind, hName, hKey]
  simp [eq_comm]

/-- A new node leaves the type folders alone to which it is not added. -/
theorem TypeFolderAt.add {g p : Nat} {e : String × String × List Item} (h : t.TypeFolderAt g e)
    (hp : p < t.size) (hgp : g ≠ p) (n : Node) : (t.add (.int p) n).TypeFolderAt g e := by
  obtain ⟨hKey, ⟨m, hRow, hRest⟩, hItems⟩ := h
  refine ⟨hKey, ⟨m, by rw [row_add_of_lt (lt_size_of_row hRow), hRow], hRest⟩, ?_⟩
  rw [kids_add hp, if_neg hgp, List.append_nil]
  exact hItems.imp fun _ _ h => h.add _ n

/-- A new item comes last in the type folder to which it is added. -/
theorem TypeFolderAt.add_item {g : Nat} {key name : String} {items : List Item}
    (h : t.TypeFolderAt g (key, name, items)) {n : Node} {item : Item}
    (hItem : n.item = some item) :
    (t.add (.int g) n).TypeFolderAt g (key, name, items ++ [item]) := by
  have hg := h.lt_size
  obtain ⟨hKey, ⟨m, hRow, hRest⟩, hItems⟩ := h
  refine ⟨hKey, ⟨m, by rw [row_add_of_lt hg, hRow], hRest⟩, ?_⟩
  rw [kids_add hg, if_pos rfl]
  refine List.rel_append (hItems.imp fun _ _ h => h.add _ n) ?_
  exact List.Forall₂.cons ⟨_, row_add_size t _ n, hItem⟩ List.Forall₂.nil

/-- A property keeps its value if the node that lists it is left alone. -/
theorem PropertyAt.leaves {j : Nat} {e : String × String × String} (h : t.PropertyAt j e)
    (hLeaves : Leaves F t t') (hj : j ∈ t.kids f) (hf : F f) : t'.PropertyAt j e := by
  obtain ⟨hKey, n, hRow, hKind, hName, hValue⟩ := h
  obtain ⟨n', hRow', hLabel⟩ := hLeaves.label j n hRow
  obtain ⟨hKind', hName', _, _⟩ := Node.label_eq_iff.mp hLabel
  have hValue' : n'.value = n.value := hLeaves.value f hf j hj n n' hRow hRow'
  exact ⟨hKey, n', hRow', hKind'.trans hKind, hName'.trans hName, hValue'.trans hValue⟩

/-- The folder of a type keeps its items if it is left alone. -/
theorem TypeFolderAt.leaves {g : Nat} {e : String × String × List Item} (h : t.TypeFolderAt g e)
    (hLeaves : Leaves F t t') (hg : F g) : t'.TypeFolderAt g e := by
  obtain ⟨hKey, ⟨n, hRow, hKind, hName⟩, hItems⟩ := h
  obtain ⟨n', hRow', hLabel⟩ := hLeaves.label g n hRow
  obtain ⟨hKind', hName', _, _⟩ := Node.label_eq_iff.mp hLabel
  refine ⟨hKey, ⟨n', hRow', hKind'.trans hKind, hName'.trans hName⟩, ?_⟩
  rw [hLeaves.kids g hg]
  refine hItems.imp fun j item hItem => ?_
  obtain ⟨m, hRow, hItem⟩ := hItem
  obtain ⟨m', hRow', hLabel⟩ := hLeaves.label j m hRow
  exact ⟨m', hRow', (Node.label_eq_iff.mp hLabel).2.2.2.trans hItem⟩

-- ---------------------------------------------------------------------------
-- Writing properties
-- ---------------------------------------------------------------------------

def propertyNode (p : String × String) : Node :=
  { kind := .nameValue, name := .text p.1, value := .text p.2 }

/-- What is known of the properties of a folder before a report are the places of the table. -/
theorem Linked.propertyIndex_eq (h : t.Linked) {js : List Nat}
    {m : Ordered String (String × String)} (hAt : List.Forall₂ t.PropertyAt js m.entries)
    (known : List (String × Nat)) :
    propertyIndex known (t.nodesAt js) = .ok ((m.places js).reverse ++ known) := by
  unfold Ordered.places Ordered.keys
  generalize m.entries = entries at hAt
  induction hAt generalizing known with
  | nil => rfl
  | @cons j e js rest hje _ ih =>
    obtain ⟨hKey, n, hRow, hKind, hName, _⟩ := hje
    obtain ⟨n, hn, rfl⟩ := row_eq_some_iff.mp hRow
    have hIndex : n.index = j := h.index_of_nodes hn
    have hKind : n.kind = .nameValue := hKind
    have hName : n.name = .text e.2.1 := hName
    rw [nodesAt_cons_of_nodes hn, propertyIndex, if_pos hKind, hName, Value.asText_text]
    simp only [hIndex, ← hKey]
    rw [ih, List.map_cons, List.zip_cons_cons, List.reverse_cons, List.append_assoc,
      List.singleton_append]

/-- Writing the value of a known name changes its entry and no other: another node is the place of
another name. -/
theorem Linked.setValue_property (h : t.Linked) {m : Ordered String (String × String)}
    (hNodup : m.keys.Nodup) (hAt : List.Forall₂ t.PropertyAt (t.kids f) m.entries)
    {p : String × String} {j : Nat} (hPlace : (Text.lower p.1, j) ∈ m.places (t.kids f)) :
    List.Forall₂ (t.change j fun n => { n with value := .text p.2 }).PropertyAt (t.kids f)
      (Filing.addProperty m p).entries := by
  refine Ordered.forall₂_putEntries hAt (h.nodup_kids f) hNodup hPlace ?_ ?_
  · rintro k e hk ⟨hKey, n, hRow, hRest⟩
    exact ⟨hKey, n, by rw [row_change (keeps_setValue _), if_neg hk, hRow], hRest⟩
  · rintro old ⟨hKey, n, hRow, hKind, hName, _⟩ hOld
    have hGet : m.get? (Text.lower p.1) = some old := hOld
    rw [hGet, Option.map_some, Option.getD_some]
    refine ⟨hKey, { n with value := .text p.2 }, ?_, hKind, hName, rfl⟩
    rw [row_change (keeps_setValue _), if_pos rfl, hRow, Option.map_some]

/-- A property with a new name becomes an entry at the end, and its node the last child. -/
theorem add_property {m : Ordered String (String × String)} (hf : f < t.size)
    (hAt : List.Forall₂ t.PropertyAt (t.kids f) m.entries) {p : String × String}
    (hNot : Text.lower p.1 ∉ m.keys) :
    List.Forall₂ (t.add (.int f) (propertyNode p)).PropertyAt
      ((t.add (.int f) (propertyNode p)).kids f) (Filing.addProperty m p).entries := by
  have hEntries : (Filing.addProperty m p).entries = m.entries ++ [(Text.lower p.1, p.1, p.2)] := by
    rw [Filing.addProperty, Ordered.get?_eq_none_of_not_mem hNot]
    exact Ordered.put_of_not_mem hNot _
  rw [kids_add hf, if_pos rfl, hEntries]
  refine List.rel_append (hAt.imp fun _ _ h => h.add _ _) ?_
  exact List.Forall₂.cons ⟨rfl, _, row_add_size t _ _, rfl, rfl, rfl⟩ List.Forall₂.nil

/-- Properties written into a folder are added to its table. The names that are known are those of
the table, each with the place where it stands. -/
theorem Linked.writeProperties_eq {t : Tree} {m : Ordered String (String × String)}
    {known : List (String × Nat)} (ps : List (String × String)) (h : t.Linked) (hf : f < t.size)
    (hNodup : m.keys.Nodup) (hAt : List.Forall₂ t.PropertyAt (t.kids f) m.entries)
    (hKnown : ∀ key j, known.lookup key = some j ↔ (key, j) ∈ m.places (t.kids f)) :
    ∃ t', writeProperties f t known (ps.map fun p => (p.1, .text p.2)) = t' ∧
      List.Forall₂ t'.PropertyAt (t'.kids f) (ps.foldl Filing.addProperty m).entries := by
  induction ps generalizing t m known with
  | nil => exact ⟨t, rfl, hAt⟩
  | cons p ps ih =>
    have hNodup' : (Filing.addProperty m p).keys.Nodup := Ordered.nodup_keys_put hNodup _ _
    rw [List.map_cons, List.foldl_cons, writeProperties]
    cases hLookup : known.lookup (Text.lower p.1) with
    | some j =>
      -- the name is known: its node takes the value, and no key changes its place
      have hPlace := (hKnown _ j).mp hLookup
      have hAt' := h.setValue_property hNodup hAt hPlace
      have hKids : (t.change j fun n => { n with value := .text p.2 }).kids f = t.kids f :=
        kids_change (keeps_setValue _) t j f
      have hPlaces : (Filing.addProperty m p).places (t.kids f) = m.places (t.kids f) :=
        Ordered.places_put_of_mem (Ordered.mem_keys_of_places hPlace) _ _
      rw [← hKids] at hAt'
      rw [← hPlaces, ← hKids] at hKnown
      exact ih (h.change (keeps_setValue _) j) (by rwa [size_change]) hNodup' hAt' hKnown
    | none =>
      -- the name is new: its node comes last, under the next index
      have hNot : Text.lower p.1 ∉ m.keys := by
        refine Ordered.not_mem_keys_of_places hAt.length_eq fun j hj => ?_
        rw [(hKnown _ j).mpr hj] at hLookup
        cases hLookup
      let grown := t.add (.int f) (propertyNode p)
      have hKnown' : ∀ key j, ((Text.lower p.1, t.size) :: known).lookup key = some j ↔
          (key, j) ∈ (Filing.addProperty m p).places (grown.kids f) := by
        intro key j
        rw [kids_add hf, if_pos rfl, Filing.addProperty,
          Ordered.places_put_of_not_mem hNot _ hAt.length_eq, List.mem_append,
          List.mem_singleton, Prod.mk.injEq, ← hKnown, List.lookup_cons]
        by_cases hKey : key = Text.lower p.1
        · subst hKey
          simp [hLookup, eq_comm]
        · rw [beq_eq_false_iff_ne.mpr hKey]
          simp [hKey]
      exact ih (h.add _ _) (by rw [size_add]; omega) hNodup' (add_property hf hAt hNot) hKnown'

-- ---------------------------------------------------------------------------
-- Filing items
-- ---------------------------------------------------------------------------

def folderNode (name : String) : Node :=
  { kind := .folder, name := .text name }

def itemNode (item : Item) : Node :=
  { kind := .item, name := .text item.spec, item := some item }

/-- The folders in a folder that holds a table are those of its entries. -/
theorem foldersText_of_typeFolders {entries : List (String × String × List Item)}
    (hAt : List.Forall₂ t.TypeFolderAt (t.kids f) entries) : t.FoldersText f := by
  intro g hg n hRow
  obtain ⟨e, -, -, ⟨m, hRow', -, hName⟩, -⟩ := exists_of_mem_left hAt (folderKids_subset hg)
  obtain rfl := Option.some.inj (hRow.symm.trans hRow')
  exact ⟨_, hName⟩

/-- The folder of a type is there or made, and a table with the type has it at its place. -/
theorem Linked.ensureTypeFolder (h : t.Linked) (hf : f < t.size) (hSelf : f ∉ t.kids f)
    {m : Ordered String (String × List Item)} (hNodup : m.keys.Nodup)
    (hAt : List.Forall₂ t.TypeFolderAt (t.kids f) m.entries) (item : Item) :
    ∃ t' g, ∃ m' : Ordered String (String × List Item),
      t.ensureFolder (.int f) item.itemType = .ok (t', g) ∧ m'.keys.Nodup ∧
      List.Forall₂ t'.TypeFolderAt (t'.kids f) m'.entries ∧
      (Text.lower item.itemType, g) ∈ m'.places (t'.kids f) ∧
      Filing.addItem m' item = Filing.addItem m item := by
  have hNames := foldersText_of_typeFolders hAt
  have hHead : (t.foldersIn f (Text.lower item.itemType)).head? =
      (m.places (t.kids f)).lookup (Text.lower item.itemType) := by
    rw [foldersIn, List.head?_filter]
    exact Ordered.find?_eq_lookup_places hAt fun j e h => h.isNamed _
  have hNodup' : ((m.places (t.kids f)).map (·.1)).Nodup := by
    rwa [Ordered.map_places hAt.length_eq]
  cases hLookup : (m.places (t.kids f)).lookup (Text.lower item.itemType) with
  | some g =>
    rw [hLookup] at hHead
    exact ⟨t, g, m, h.ensureFolder_of_some hNames hf hHead, hNodup, hAt,
      (Ordered.lookup_eq_some_iff_mem hNodup').mp hLookup, rfl⟩
  | none =>
    rw [hLookup] at hHead
    have hNot : Text.lower item.itemType ∉ m.keys := by
      refine Ordered.not_mem_keys_of_places hAt.length_eq fun j hj => ?_
      rw [(Ordered.lookup_eq_some_iff_mem hNodup').mpr hj] at hLookup
      cases hLookup
    -- the new folder holds no items yet
    refine ⟨_, _, m.put (Text.lower item.itemType) (item.itemType, []),
      ensureFolder_of_none hNames hf hHead, Ordered.nodup_keys_put hNodup _ _, ?_, ?_, ?_⟩
    · rw [kids_add hf, if_pos rfl, Ordered.put_of_not_mem hNot]
      refine List.rel_append ?_ (List.Forall₂.cons ?_ List.Forall₂.nil)
      · have hAway : ∀ g ∈ t.kids f, g ≠ f := fun g hg hEq => hSelf (hEq ▸ hg)
        exact ((List.forall₂_and_left _ _).mpr ⟨hAway, hAt⟩).imp fun g e h => h.2.add hf h.1 _
      · refine ⟨rfl, ⟨_, row_add_size t _ _, rfl, rfl⟩, ?_⟩
        rw [kids_add hf, if_neg (Nat.ne_of_gt hf), kids_size]
        exact List.Forall₂.nil
    · rw [kids_add hf, if_pos rfl, Ordered.places_put_of_not_mem hNot _ hAt.length_eq]
      exact List.mem_append_right _ (List.mem_singleton_self _)
    · rw [Filing.addItem, Filing.addItem, Ordered.put_put, Ordered.get?_put, if_pos rfl,
        Ordered.get?_eq_none_of_not_mem hNot]
      rfl

/-- An item of a known type comes into the folder of the type, and the other folders stay as they
are. -/
theorem Linked.add_item (h : t.Linked) (hSelf : f ∉ t.kids f)
    {m : Ordered String (String × List Item)} (hNodup : m.keys.Nodup)
    (hAt : List.Forall₂ t.TypeFolderAt (t.kids f) m.entries) {item : Item} {g : Nat}
    (hPlace : (Text.lower item.itemType, g) ∈ m.places (t.kids f)) :
    List.Forall₂ (t.add (.int g) (itemNode item)).TypeFolderAt
      ((t.add (.int g) (itemNode item)).kids f) (Filing.addItem m item).entries := by
  have hgKids : g ∈ t.kids f := (List.of_mem_zip hPlace).2
  have hg : g < t.size := h.lt_size f g hgKids
  have hfg : f ≠ g := fun hEq => hSelf (hEq ▸ hgKids)
  rw [kids_add hg, if_neg hfg, List.append_nil]
  refine Ordered.forall₂_putEntries hAt (h.nodup_kids f) hNodup hPlace ?_ ?_
  · exact fun k e hk h => h.add hg hk _
  · rintro old hOldAt hOld
    have hGet : m.get? (Text.lower item.itemType) = some old := hOld
    rw [hGet]
    exact hOldAt.add_item rfl

/-- Items filed in a folder are added to its table. -/
theorem Linked.fileItems_eq {t : Tree} {m : Ordered String (String × List Item)}
    (items : List Item) (h : t.Linked) (hf : f < t.size) (hSelf : f ∉ t.kids f)
    (hNodup : m.keys.Nodup) (hAt : List.Forall₂ t.TypeFolderAt (t.kids f) m.entries) :
    ∃ t', fileItems f t items = (t', none) ∧
      List.Forall₂ t'.TypeFolderAt (t'.kids f) (items.foldl Filing.addItem m).entries := by
  induction items generalizing t m with
  | nil => exact ⟨t, rfl, hAt⟩
  | cons item items ih =>
    obtain ⟨t₁, g, m₁, hEnsure, hNodup₁, hAt₁, hPlace, hSame⟩ :=
      h.ensureTypeFolder hf hSelf hNodup hAt item
    obtain ⟨hPuts, hg⟩ := h.puts_ensureFolder hf hEnsure
    have hLinked₁ := hPuts.linked h
    have hf₁ : f < t₁.size := Nat.lt_of_lt_of_le hf (hPuts.leaves h).size_le
    have hSelf₁ : f ∉ t₁.kids f := by rwa [hPuts.mem_kids_iff h hf]
    have hSelf₂ : f ∉ (t₁.add (.int g) (itemNode item)).kids f := by
      rw [mem_kids_add]
      rintro (hOld | ⟨_, hNew⟩)
      · exact hSelf₁ hOld
      · omega
    have hf₂ : f < (t₁.add (.int g) (itemNode item)).size := by
      rw [size_add]
      omega
    obtain ⟨t', hEq, hAt'⟩ := ih (hLinked₁.add _ _) hf₂ hSelf₂
      (Ordered.nodup_keys_put hNodup₁ _ _) (hLinked₁.add_item hSelf₁ hNodup₁ hAt₁ hPlace)
    refine ⟨t', ?_, ?_⟩
    · rw [fileItems, hEnsure]
      exact hEq
    · rwa [List.foldl_cons, ← hSame]

end BuildDigest.Tree
