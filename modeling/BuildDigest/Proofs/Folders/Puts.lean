import BuildDigest.Proofs.Folders.Search
import Mathlib.Logic.Relation

/-!
# What reports put into a tree

A report of properties or items of a node is worked into the tree piece by piece:
each time a node is filed below the node or below one of its folders, or a property
that stands there takes a value. Whatever the tree is like, nothing else is touched.

* `Tree.Put`, `Tree.Puts` — one piece, and pieces in a row.
* `Linked.puts_setProperties`, `Linked.puts_addItems` — a report is worked in by them.
* `Tree.Leaves` — what is not touched; `Puts.leaves`.
* `Puts.filed` — in a well-formed tree nothing was done but filing.
-/

namespace BuildDigest.Tree

variable {t t' t'' : Tree} {S F : Nat → Prop} {p i f c : Nat} {name : String}

/-- One thing is put below a node: a new folder, a new node that is filed in a folder, or a value
for a property that stands there. -/
inductive Put (p : Nat) (t : Tree) : Tree → Prop
  | node {n : Node} (hp : p < t.size) (hKind : n.kind.isFiling = true)
    (hName : ∃ s, n.name = .text s)
    (hPlace : n.kind = .folder ∧ n.item = none ∨ t.isFolderAt p = true) :
    Put p t (t.add (.int p) n)
  | value {j : Nat} {n : Node} (hj : j ∈ t.kids p) (hRow : t.row j = some n)
    (hKind : n.kind = .nameValue) (v : Value) :
    Put p t (t.change j fun n => { n with value := v })

/-- Things are put below nodes in `S`, one after the other. -/
abbrev Puts (S : Nat → Prop) : Tree → Tree → Prop :=
  Relation.ReflTransGen fun t t' => ∃ p, S p ∧ Put p t t'

theorem Put.puts (h : Put p t t') (hp : S p) : Puts S t t' :=
  .single ⟨p, hp, h⟩

/-- What is put below some nodes is put below more. -/
theorem Puts.mono {S' : Nat → Prop} (h : Puts S t t') (hS : ∀ p, S p → S' p) : Puts S' t t' := by
  induction h with
  | refl => exact .refl
  | tail _ hPut ih =>
    obtain ⟨p, hp, hPut⟩ := hPut
    exact ih.tail ⟨p, hS p hp, hPut⟩

-- ---------------------------------------------------------------------------
-- What is kept
-- ---------------------------------------------------------------------------

/-- A tree after more was put into it, but nothing below the nodes in `F`. -/
structure Leaves (F : Nat → Prop) (t t' : Tree) : Prop where
  size_le : t.size ≤ t'.size
  label : ∀ j n, t.row j = some n → ∃ n', t'.row j = some n' ∧ n'.label = n.label
  kids : ∀ p, F p → t'.kids p = t.kids p
  value : ∀ p, F p → ∀ j ∈ t.kids p, ∀ n n', t.row j = some n → t'.row j = some n' →
    n'.value = n.value

/-- A tree leaves itself alone. -/
theorem Leaves.refl (F : Nat → Prop) (t : Tree) : Leaves F t t where
  size_le := Nat.le_refl _
  label j n hRow := ⟨n, hRow, rfl⟩
  kids _ _ := rfl
  value _ _ _ _ n n' hRow hRow' := by
    rw [hRow] at hRow'
    rw [Option.some.inj hRow']

/-- What is left alone twice is left alone, because children stay the same in between. -/
theorem Leaves.trans (h : Leaves F t t') (h' : Leaves F t' t'') : Leaves F t t'' where
  size_le := Nat.le_trans h.size_le h'.size_le
  label j n hRow := by
    obtain ⟨n', hRow', hLabel⟩ := h.label j n hRow
    obtain ⟨n'', hRow'', hLabel'⟩ := h'.label j n' hRow'
    exact ⟨n'', hRow'', hLabel'.trans hLabel⟩
  kids p hp := (h'.kids p hp).trans (h.kids p hp)
  value p hp j hj n n'' hRow hRow'' := by
    obtain ⟨n', hRow', _⟩ := h.label j n hRow
    rw [h'.value p hp j (by rwa [h.kids p hp]) n' n'' hRow' hRow'',
      h.value p hp j hj n n' hRow hRow']

theorem Leaves.mono {F' : Nat → Prop} (h : Leaves F t t') (hF : ∀ p, F' p → F p) :
    Leaves F' t t' :=
  ⟨h.size_le, h.label, fun p hp => h.kids p (hF p hp), fun p hp => h.value p (hF p hp)⟩

/-- Folders stay folders, and no other node becomes one. -/
theorem Leaves.isFolderAt_eq (h : Leaves F t t') (hc : c < t.size) :
    t'.isFolderAt c = t.isFolderAt c := by
  obtain ⟨n, hRow⟩ := exists_row hc
  obtain ⟨n', hRow', hLabel⟩ := h.label c n hRow
  rw [isFolderAt, isFolderAt, hRow, hRow', Option.any_some, Option.any_some,
    (Node.label_eq_iff.mp hLabel).1]

/-- A new node leaves all nodes alone but the one that lists it. -/
theorem leaves_add (t : Tree) (parent : Value) (n : Node) :
    Leaves (fun q => t.host? parent ≠ some q) t (t.add parent n) where
  size_le := by
    rw [size_add]
    omega
  label j m hRow := ⟨m, by rw [row_add_of_lt (lt_size_of_row hRow), hRow], rfl⟩
  kids q hq := by rw [kids_add_host, if_neg hq, List.append_nil]
  value _ _ j _ m m' hRow hRow' := by
    rw [row_add_of_lt (lt_size_of_row hRow), hRow] at hRow'
    rw [Option.some.inj hRow']

/-- One piece leaves all nodes alone but the one below which it is put: a new node is listed by that
one, and a node that takes a value is listed by no other. -/
theorem Put.leaves (h : Put p t t') (hLinked : t.Linked) :
    Leaves (fun q => q < t.size ∧ q ≠ p) t t' := by
  cases h with
  | @node n hp =>
    refine (leaves_add t (.int p) n).mono ?_
    rintro q ⟨_, hq⟩
    rw [host?_int hp]
    exact fun hEq => hq (Option.some.inj hEq).symm
  | @value j n hj _ _ v =>
    have hKeeps := keeps_setValue v
    refine ⟨by rw [size_change], fun k m hm => ?_, fun q _ => kids_change hKeeps t j q, ?_⟩
    · rw [row_change hKeeps, hm]
      split
      · exact ⟨_, rfl, rfl⟩
      · exact ⟨m, rfl, rfl⟩
    · rintro q ⟨_, hq⟩ k hk m m' hm hm'
      -- the node that takes the value is listed by another one
      have hkj : k ≠ j := by
        rintro rfl
        exact hq (hLinked.parent_unique q p k hk hj)
      rw [row_change hKeeps, if_neg hkj, hm] at hm'
      rw [Option.some.inj hm']

theorem Put.linked (h : Put p t t') (hLinked : t.Linked) : t'.Linked := by
  cases h with
  | node => exact hLinked.add _ _
  | value _ _ _ v => exact hLinked.change (keeps_setValue v) _

/-- Nodes that are there stay where they are listed. -/
theorem Put.mem_kids_iff (h : Put p t t') (hc : c < t.size) : c ∈ t'.kids i ↔ c ∈ t.kids i := by
  cases h with
  | node =>
    rw [mem_kids_add, or_iff_left]
    rintro ⟨_, rfl⟩
    exact Nat.lt_irrefl _ hc
  | value _ _ _ v => rw [kids_change (keeps_setValue v)]

/-- What is put into a tree that is made somehow is one more step in making it. -/
theorem Puts.made (h : Puts S t t') (hMade : t.Made) : t'.Made := by
  induction h with
  | refl => exact hMade
  | tail _ hPut ih =>
    obtain ⟨p, _, hPut⟩ := hPut
    cases hPut with
    | node => exact ih.add _ _
    | value _ _ _ v => exact ih.change (keeps_setValue v) _

theorem Puts.linked (h : Puts S t t') (hLinked : t.Linked) : t'.Linked := by
  induction h with
  | refl => exact hLinked
  | tail _ hPut ih =>
    obtain ⟨p, _, hPut⟩ := hPut
    exact hPut.linked ih

/-- Nothing is put below nodes that are not in `S`. -/
theorem Puts.leaves (h : Puts S t t') (hLinked : t.Linked) :
    Leaves (fun q => q < t.size ∧ ¬ S q) t t' := by
  induction h with
  | refl => exact Leaves.refl _ t
  | @tail t₁ t₂ hPuts hPut ih =>
    obtain ⟨p, hp, hPut⟩ := hPut
    refine ih.trans ((hPut.leaves (Puts.linked hPuts hLinked)).mono ?_)
    rintro q ⟨hq, hS⟩
    exact ⟨Nat.lt_of_lt_of_le hq ih.size_le, fun hEq => hS (hEq ▸ hp)⟩

/-- Nodes that are there stay where they are listed, whatever is put into the tree. -/
theorem Puts.mem_kids_iff (h : Puts S t t') (hLinked : t.Linked) (hc : c < t.size) :
    c ∈ t'.kids i ↔ c ∈ t.kids i := by
  induction h with
  | refl => exact Iff.rfl
  | tail hPuts hPut ih =>
    obtain ⟨p, _, hPut⟩ := hPut
    have hSize := (Puts.leaves hPuts hLinked).size_le
    rw [hPut.mem_kids_iff (Nat.lt_of_lt_of_le hc hSize), ih]

theorem Puts.mem_folderKids_iff (h : Puts S t t') (hLinked : t.Linked) (hc : c < t.size) :
    c ∈ t'.folderKids i ↔ c ∈ t.folderKids i := by
  rw [folderKids, List.mem_filter, (h.leaves hLinked).isFolderAt_eq hc,
    h.mem_kids_iff hLinked hc, folderKids, List.mem_filter]

-- ---------------------------------------------------------------------------
-- Items below nodes that are no folders
-- ---------------------------------------------------------------------------

/-- The items of the children of a node. -/
def itemsBelow (t : Tree) (c : Nat) : List Item :=
  (t.kids c).filterMap fun j => (t.row j).bind (·.item)

theorem filterMap_item_nodesAt (t : Tree) (js : List Nat) :
    (t.nodesAt js).filterMap (·.item) = js.filterMap fun j => (t.row j).bind (·.item) := by
  rw [nodesAt, List.filterMap_filterMap]
  refine List.filterMap_congr fun j _ => ?_
  rw [row]
  cases t.nodes[j]? <;> rfl

/-- Nodes that are there keep their items, whatever is put into the tree. -/
theorem Leaves.filterMap_item_eq (h : Leaves F t t') {js : List Nat} (hjs : ∀ j ∈ js, j < t.size) :
    (js.filterMap fun j => (t'.row j).bind (·.item)) =
      js.filterMap fun j => (t.row j).bind (·.item) := by
  refine List.filterMap_congr fun j hj => ?_
  obtain ⟨n, hRow⟩ := exists_row (hjs j hj)
  obtain ⟨n', hRow', hLabel⟩ := h.label j n hRow
  rw [hRow, hRow', Option.bind_some, Option.bind_some, (Node.label_eq_iff.mp hLabel).2.2.2]

/-- Below a node that is no folder no item is put. -/
theorem Put.itemsBelow_eq (h : Put p t t') (hLinked : t.Linked) (hc : t.isFolderAt c = false) :
    t'.itemsBelow c = t.itemsBelow c := by
  have hOld := (h.leaves hLinked).filterMap_item_eq (hLinked.lt_size c)
  cases h with
  | @node n hp _ _ hPlace =>
    rw [itemsBelow, kids_add hp, List.filterMap_append, hOld, itemsBelow]
    split
    · next hcp =>
      -- what is put below no folder has no item
      have hNone : n.item = none := (hPlace.resolve_right (by rw [← hcp, hc]; exact nofun)).2
      have hNew : (n.placed t.size (.int p)).item = none := hNone
      simp [row_add_size, hNew]
    · simp
  | value _ _ _ v =>
    rw [itemsBelow, kids_change (keeps_setValue v), hOld, itemsBelow]

/-- Below a node that is no folder the items stay, however much is put into the tree. -/
theorem Puts.itemsBelow_eq (h : Puts S t t') (hLinked : t.Linked) (hSize : c < t.size)
    (hc : t.isFolderAt c = false) : t'.itemsBelow c = t.itemsBelow c := by
  induction h with
  | refl => rfl
  | tail hPuts hPut ih =>
    obtain ⟨p, _, hPut⟩ := hPut
    have hFolder := (Puts.leaves hPuts hLinked).isFolderAt_eq hSize
    rw [hPut.itemsBelow_eq (Puts.linked hPuts hLinked) (hFolder.trans hc), ih]

-- ---------------------------------------------------------------------------
-- Reports
-- ---------------------------------------------------------------------------

/-- The folders in a node, and the folders in those. -/
def ownFolders (t : Tree) (i : Nat) : List Nat :=
  t.folderKids i ++ (t.folderKids i).flatMap t.folderKids

/-- What a report on a node is put below: the node and its folders, new ones included. -/
def Inside (t : Tree) (i p : Nat) : Prop :=
  p = i ∨ p ∈ t.ownFolders i ∨ t.size ≤ p

/-- What is put into a folder is put below it or the folders in it, new ones included. -/
def Within (t : Tree) (f p : Nat) : Prop :=
  p = f ∨ p ∈ t.folderKids f ∨ t.size ≤ p

theorem Linked.lt_size_of_mem_folderKids (h : t.Linked) (hf : f ∈ t.folderKids i) : f < t.size :=
  h.lt_size i f (folderKids_subset hf)

/-- The folders of a node are two levels deep. -/
theorem mem_ownFolders {q : Nat} :
    q ∈ t.ownFolders i ↔ q ∈ t.folderKids i ∨ ∃ f ∈ t.folderKids i, q ∈ t.folderKids f := by
  rw [ownFolders, List.mem_append, List.mem_flatMap]

/-- The folder of a name is there or put into the node. -/
theorem Linked.puts_ensureFolder (h : t.Linked) (hi : i < t.size)
    (hEnsure : t.ensureFolder (.int i) name = .ok (t', f)) :
    Puts (· = i) t t' ∧ f ∈ t'.folderKids i := by
  unfold ensureFolder at hEnsure
  split at hEnsure
  · cases hEnsure
  · next folder hFind =>
    cases hEnsure
    obtain ⟨hKid, hn, hKind⟩ := h.of_findChild hi hFind
    refine ⟨.refl, mem_folderKids.mpr ⟨hKid, folder.bare, ?_, hKind⟩⟩
    rw [row, hn, Option.map_some]
  · cases hEnsure
    refine ⟨(Put.node hi rfl ⟨name, rfl⟩ (Or.inl ⟨rfl, rfl⟩)).puts rfl, ?_⟩
    rw [h.folderKids_add, host?_int hi, if_pos ⟨rfl, rfl⟩]
    exact List.mem_append_right _ (List.mem_singleton_self _)

/-- A property among the children of a node. -/
def PropertyKid (t : Tree) (f j : Nat) : Prop :=
  j ∈ t.kids f ∧ ∃ n, t.row j = some n ∧ n.kind = .nameValue

/-- A property among the children of a folder stays one. -/
theorem PropertyKid.puts {j : Nat} (h : t.PropertyKid f j) (hPuts : Puts S t t')
    (hLinked : t.Linked) : t'.PropertyKid f j := by
  obtain ⟨hKid, n, hRow, hKind⟩ := h
  obtain ⟨n', hRow', hLabel⟩ := (hPuts.leaves hLinked).label j n hRow
  refine ⟨(hPuts.mem_kids_iff hLinked (lt_size_of_row hRow)).mpr hKid, n', hRow', ?_⟩
  exact (Node.label_eq_iff.mp hLabel).1.trans hKind

/-- What is known of the names of some nodes are the places of those that are properties. -/
theorem propertyIndex_forall {P : Nat → Prop} {nodes : List Node}
    {known known' : List (String × Nat)}
    (h : propertyIndex known nodes = .ok known') (hKnown : ∀ e ∈ known, P e.2)
    (hNodes : ∀ n ∈ nodes, n.kind = .nameValue → P n.index) : ∀ e ∈ known', P e.2 := by
  induction nodes generalizing known with
  | nil =>
    cases h
    exact hKnown
  | cons n rest ih =>
    rw [List.forall_mem_cons] at hNodes
    rw [propertyIndex] at h
    split at h
    · next hKind =>
      split at h
      · cases h
      · refine ih h ?_ hNodes.2
        exact List.forall_mem_cons.mpr ⟨hNodes.1 hKind, hKnown⟩
    · exact ih h hKnown hNodes.2

/-- Properties are written below the folder: a known one takes a value, a new one becomes a child.
What is known stays known, because nodes stay where they are listed. -/
theorem Linked.puts_writeProperties {known : List (String × Nat)} (h : t.Linked)
    (hf : t.isFolderAt f = true) (hKnown : ∀ e ∈ known, t.PropertyKid f e.2)
    (ps : List (String × Value)) :
    Puts (· = f) t (writeProperties f t known ps) := by
  induction ps generalizing t known with
  | nil => exact .refl
  | cons q rest ih =>
    have hSize := lt_size_of_isFolderAt hf
    rw [writeProperties]
    split
    · next j hLookup =>
      -- the name is known, and its node takes the value
      obtain ⟨before, after, rfl, _⟩ := List.lookup_eq_some_iff.mp hLookup
      obtain ⟨hj, n, hRow, hKind⟩ : t.PropertyKid f j :=
        hKnown _ (List.mem_append_right _ (List.mem_cons_self ..))
      have hPut : Put f t (t.change j fun n => { n with value := q.2 }) := .value hj hRow hKind _
      have hPuts : Puts (· = f) t _ := hPut.puts rfl
      refine hPuts.trans (ih (hPut.linked h) ?_ fun e he => (hKnown e he).puts hPuts h)
      rw [(hPuts.leaves h).isFolderAt_eq hSize, hf]
    · -- the name is new, and so is its node
      let node : Node := { kind := .nameValue, name := .text q.1, value := q.2 }
      have hPut : Put f t (t.add (.int f) node) := .node hSize rfl ⟨_, rfl⟩ (Or.inr hf)
      have hPuts : Puts (· = f) t _ := hPut.puts rfl
      refine hPuts.trans (ih (hPut.linked h) ?_ ?_)
      · rw [(hPuts.leaves h).isFolderAt_eq hSize, hf]
      · rw [List.forall_mem_cons]
        refine ⟨⟨mem_kids_add.mpr (Or.inr ⟨host?_int hSize, rfl⟩), _, row_add_size t _ _, rfl⟩, ?_⟩
        exact fun e he => (hKnown e he).puts hPuts h

/-- What is in a node after things were put below it is new or was in it before. -/
theorem Puts.mem_folderKids (h : Puts S t t') (hLinked : t.Linked) (hc : c ∈ t'.folderKids i) :
    c ∈ t.folderKids i ∨ t.size ≤ c := by
  by_cases hOld : c < t.size
  · exact Or.inl ((h.mem_folderKids_iff hLinked hOld).mp hc)
  · exact Or.inr (Nat.le_of_not_lt hOld)

/-- A report of properties puts the folder of the properties into the node and everything else into
this folder. -/
theorem Linked.puts_setProperties (h : t.Linked) (hi : i < t.size) (v : Value) :
    Puts (t.Inside i) t (t.setProperties (.int i) v).1 := by
  unfold setProperties
  split
  · cases hEnsure : t.ensureFolder (.int i) propertiesFolder with
    | error fault => exact .refl
    | ok made =>
      obtain ⟨t₁, f⟩ := made
      obtain ⟨hPuts, hf⟩ := h.puts_ensureFolder hi hEnsure
      have hLinked₁ := hPuts.linked h
      have hInside : Puts (t.Inside i) t t₁ := hPuts.mono fun _ hp => Or.inl hp
      dsimp only
      split
      · exact hInside
      · next known hIndex =>
        split
        · refine hInside.trans ((hLinked₁.puts_writeProperties (List.mem_filter.mp hf).2 ?_ _).mono
            ?_)
          · -- what is known when the writing starts are the properties in the folder
            refine propertyIndex_forall hIndex nofun fun n hn hKind => ?_
            rw [childrenAt_eq (hLinked₁.lt_size_of_mem_folderKids hf)] at hn
            obtain ⟨c, hc, hn⟩ := mem_nodesAt.mp hn
            rw [hLinked₁.index_of_nodes hn]
            exact ⟨hc, n.bare, row_eq_some_iff.mpr ⟨n, hn, rfl⟩, hKind⟩
          · rintro p rfl
            exact Or.inr ((hPuts.mem_folderKids h hf).imp_left fun hOld =>
              mem_ownFolders.mpr (Or.inl hOld))
        · exact hInside
  · exact .refl

/-- Items are put below the folder or below the folder of their type, by induction on the items:
each one finds the folders of those before it. -/
theorem Linked.puts_fileItems (h : t.Linked) (hf : t.isFolderAt f = true) (items : List Item) :
    Puts (t.Within f) t (fileItems f t items).1 := by
  induction items generalizing t with
  | nil => exact .refl
  | cons item items ih =>
    have hSize := lt_size_of_isFolderAt hf
    rw [fileItems]
    cases hEnsure : t.ensureFolder (.int f) item.itemType with
    | error fault => exact .refl
    | ok made =>
      obtain ⟨t₁, g⟩ := made
      obtain ⟨hPuts, hg⟩ := h.puts_ensureFolder hSize hEnsure
      have hLinked₁ := hPuts.linked h
      have hPut : Put g t₁ (t₁.add (.int g) { kind := .item, name := .text item.spec, item }) :=
        .node (hLinked₁.lt_size_of_mem_folderKids hg) rfl ⟨_, rfl⟩
          (Or.inr (List.mem_filter.mp hg).2)
      have hBoth : Puts (t.Within f) t _ :=
        (hPuts.mono fun _ hp => Or.inl hp).trans (hPut.puts (Or.inr (hPuts.mem_folderKids h hg)))
      have hLeaves := hBoth.leaves h
      refine hBoth.trans ((ih (hPut.linked hLinked₁) ?_).mono ?_)
      · rw [hLeaves.isFolderAt_eq hSize, hf]
      · rintro p (rfl | hp | hp)
        · exact Or.inl rfl
        · exact Or.inr (hBoth.mem_folderKids h hp)
        · exact Or.inr (Or.inr (Nat.le_trans hLeaves.size_le hp))

/-- A report of items puts the folder of the items into the node and everything else into this
folder or deeper. -/
theorem Linked.puts_addItems (h : t.Linked) (hi : i < t.size) (items : List Item) :
    Puts (t.Inside i) t (t.addItems (.int i) items).1 := by
  unfold addItems
  split
  · exact .refl
  · cases hEnsure : t.ensureFolder (.int i) itemsFolder with
    | error fault => exact .refl
    | ok made =>
      obtain ⟨t₁, f⟩ := made
      obtain ⟨hPuts, hf⟩ := h.puts_ensureFolder hi hEnsure
      have hLinked₁ := hPuts.linked h
      refine (hPuts.mono fun _ hp => Or.inl hp).trans
        ((hLinked₁.puts_fileItems (List.mem_filter.mp hf).2 items).mono ?_)
      have hOldFolder := hPuts.mem_folderKids h hf
      rintro p (rfl | hp | hp)
      · exact Or.inr (hOldFolder.imp_left fun hOld => mem_ownFolders.mpr (Or.inl hOld))
      · -- a folder in an old folder is old, or new itself; one in a new folder is new
        refine Or.inr ((hPuts.mem_folderKids h hp).imp_left fun hOld => ?_)
        have hfSize := lt_size_of_mem_kids (folderKids_subset hOld)
        exact mem_ownFolders.mpr (Or.inr ⟨f, hOldFolder.resolve_right hfSize.not_ge, hOld⟩)
      · exact Or.inr (Or.inr (Nat.le_trans (hPuts.leaves h).size_le hp))

-- ---------------------------------------------------------------------------
-- Well-formed trees
-- ---------------------------------------------------------------------------

/-- One piece is put by filing. -/
theorem Put.filed (h : Put p t t') (hWf : t.WellFormed) (hNames : t.NamesText) :
    Filed (· = p) t t' := by
  cases h with
  | node hp hKind hName => exact filed_add hWf hNames hp hKind hName
  | @value j n hj hRow hKind v =>
    have hFiling : n.kind.isFiling = true := by
      rw [hKind]
      rfl
    exact filed_setValue hWf hNames hRow hFiling (hWf.mem_kids.mp hj) v

/-- Nothing is done but filing. -/
theorem Puts.filed (h : Puts S t t') (hWf : t.WellFormed) (hNames : t.NamesText) :
    Filed S t t' := by
  induction h with
  | refl => exact Filed.refl hWf hNames S
  | tail _ hPut ih =>
    obtain ⟨p, hp, hPut⟩ := hPut
    refine ih.trans ((hPut.filed ih.wellFormed ih.namesText).mono ?_)
    rintro q rfl
    exact hp

end BuildDigest.Tree
