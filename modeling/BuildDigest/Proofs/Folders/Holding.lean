import BuildDigest.Proofs.Folders.Writing

/-!
# What folders hold

A node keeps its properties and its items in two folders, each made when it is
first needed. The folders hold the tables that the reports come to: a report of
properties leaves the folder of the items alone and the other way round, and what is
put elsewhere touches neither. Nothing of the tree is asked for but that nodes are
listed once.

* `Tree.Room` — a node that has room for folders; `Room.puts`, `Room.add`.
* `Tree.Stored`, `Tree.Tables` — the folders of a node hold entries and tables.
* `Tables.leaves` — what leaves the folders alone leaves the tables alone.
* `Tables.setProperties`, `Tables.addItems` — reports are added to the tables.
-/

namespace BuildDigest.Tree

variable {α : Type} {t t' : Tree} {S F : Nat → Prop} {i f : Nat} {name other : String}
  {R : Tree → Nat → α → Prop} {entries : List α}

-- ---------------------------------------------------------------------------
-- Folders of a node
-- ---------------------------------------------------------------------------

/-- A node that is left alone keeps its folders of each name. -/
theorem Leaves.foldersIn_eq (h : Leaves F t t') (hLinked : t.Linked) (hi : F i) (key : String) :
    t'.foldersIn i key = t.foldersIn i key := by
  rw [foldersIn, h.kids i hi]
  refine List.filter_congr fun j hj => ?_
  obtain ⟨n, hRow⟩ := exists_row (hLinked.lt_size i j hj)
  obtain ⟨n', hRow', hLabel⟩ := h.label j n hRow
  rw [hRow, hRow', Option.any_some, Option.any_some, Node.isNamed_congr hLabel]

theorem not_mem_ownFolders {j : Nat} (hj : t.isFolderAt j = false) : j ∉ t.ownFolders i := by
  rw [mem_ownFolders]
  rintro (hMem | ⟨f, _, hMem⟩) <;> exact not_mem_folderKids hj hMem

/-- A node that is there, and is neither another one nor one of its folders, is not touched by
reports on that one. -/
theorem not_inside_of_not_mem {j : Nat} (hSize : i < t.size) (hij : i ≠ j)
    (hi : i ∉ t.ownFolders j) : ¬ t.Inside j i := by
  rintro (hEq | hMem | hNew)
  · exact hij hEq
  · exact hi hMem
  · exact hNew.not_gt hSize

/-- A child is out of the reach of a report on another node if its parent is neither that node
nor a folder in it. -/
theorem Linked.not_inside (h : t.Linked) {j p c : Nat} (hc : c ∈ t.kids p) (hcj : c ≠ j)
    (hpj : p ≠ j) (hp : p ∉ t.folderKids j) : ¬ t.Inside j c := by
  rintro (hEq | hMem | hNew)
  · exact hcj hEq
  · rcases mem_ownFolders.mp hMem with hMem | ⟨f, hf, hMem⟩
    · exact hpj (h.parent_unique p j c hc (folderKids_subset hMem))
    · exact hp (h.parent_unique f p c (folderKids_subset hMem) hc ▸ hf)
  · exact hNew.not_gt (h.lt_size p c hc)

/-- The folders of a node are out of the reach of a report on another node that is no folder. -/
theorem Linked.not_inside_of_mem_ownFolders (h : t.Linked) {j p : Nat}
    (hj : t.isFolderAt j = false) (hij : i ≠ j) (hi : i ∉ t.folderKids j)
    (hp : p ∈ t.ownFolders i) : ¬ t.Inside j p := by
  have hNot {c k : Nat} (hc : c ∈ t.folderKids k) : c ≠ j :=
    fun hEq => not_mem_folderKids hj (hEq ▸ hc)
  rcases mem_ownFolders.mp hp with hMem | ⟨f, hf, hMem⟩
  · exact h.not_inside (folderKids_subset hMem) (hNot hMem) hij hi
  · refine h.not_inside (folderKids_subset hMem) (hNot hMem) (hNot hf) fun hOther => ?_
    exact hij (h.parent_unique i j f (folderKids_subset hf) (folderKids_subset hOther))

/-- Nodes that are there stay in the folders of a node, or out of them. -/
theorem Puts.mem_ownFolders_iff (h : Puts S t t') (hLinked : t.Linked) {c : Nat}
    (hc : c < t.size) : c ∈ t'.ownFolders i ↔ c ∈ t.ownFolders i := by
  rw [mem_ownFolders, mem_ownFolders, h.mem_folderKids_iff hLinked hc]
  refine or_congr_right (exists_congr fun f => ?_)
  rw [h.mem_folderKids_iff hLinked hc]
  refine and_congr_left fun hMem => h.mem_folderKids_iff hLinked ?_
  exact lt_size_of_mem_kids (folderKids_subset hMem)

/-- What is put into a tree gives every folder a text for its name: new folders get one, and a
property that takes a value is no folder. -/
theorem Put.foldersText {p : Nat} (h : Put p t t') (hLinked : t.Linked)
    (hNames : t.FoldersText i) : t'.FoldersText i := by
  intro f hf n' hRow'
  have hPuts : Puts (· = p) t t' := h.puts rfl
  by_cases hOld : f < t.size
  · obtain ⟨n, hRow⟩ := exists_row hOld
    obtain ⟨n'', hRow'', hLabel⟩ := (hPuts.leaves hLinked).label f n hRow
    rw [hRow'] at hRow''
    obtain rfl := Option.some.inj hRow''
    rw [(Node.label_eq_iff.mp hLabel).2.1]
    exact hNames f ((hPuts.mem_folderKids_iff hLinked hOld).mp hf) n hRow
  · cases h with
    | node _ _ hName =>
      rw [row_add] at hRow'
      split at hRow'
      · cases hRow'
        exact hName
      · exact absurd (lt_size_of_row hRow') hOld
    | value =>
      have := lt_size_of_row hRow'
      rw [size_change] at this
      omega

/-- A node has room for folders: it is none of them itself, and they have texts for names. -/
structure Room (t : Tree) (i : Nat) : Prop where
  linked : t.Linked
  lt_size : i < t.size
  apart : i ∉ t.ownFolders i
  foldersText : t.FoldersText i

/-- There is still room after something was put into the tree. -/
theorem Room.puts (h : t.Room i) (hPuts : Puts S t t') : t'.Room i where
  linked := hPuts.linked h.linked
  lt_size := Nat.lt_of_lt_of_le h.lt_size (hPuts.leaves h.linked).size_le
  apart := by
    rw [hPuts.mem_ownFolders_iff h.linked h.lt_size]
    exact h.apart
  foldersText := by
    induction hPuts with
    | refl => exact h.foldersText
    | tail hPuts hPut ih =>
      obtain ⟨p, _, hPut⟩ := hPut
      exact hPut.foldersText (Puts.linked hPuts h.linked) ih

theorem Linked.folderKids_add_of_ne (h : t.Linked) (parent : Value) {n : Node}
    (hKind : n.kind ≠ .folder) (j : Nat) : (t.add parent n).folderKids j = t.folderKids j := by
  rw [h.folderKids_add, if_neg fun hBoth => hKind hBoth.2, List.append_nil]

/-- There is still room after a node was added that is no folder. -/
theorem Room.add (h : t.Room i) (parent : Value) {n : Node} (hKind : n.kind ≠ .folder) :
    (t.add parent n).Room i where
  linked := h.linked.add parent n
  lt_size := by
    rw [size_add]
    exact Nat.lt_succ_of_lt h.lt_size
  apart := by
    have hSame : (t.add parent n).folderKids = t.folderKids :=
      funext (h.linked.folderKids_add_of_ne parent hKind)
    rw [ownFolders, hSame]
    exact h.apart
  foldersText f hf m hRow := by
    rw [h.linked.folderKids_add_of_ne parent hKind] at hf
    rw [row_add_of_lt (h.linked.lt_size_of_mem_folderKids hf)] at hRow
    exact h.foldersText f hf m hRow

/-- A new node that is no folder has room for folders. -/
theorem Linked.room_add (h : t.Linked) (parent : Value) {n : Node} (hKind : n.kind ≠ .folder) :
    (t.add parent n).Room t.size where
  linked := h.add parent n
  lt_size := by
    rw [size_add]
    exact Nat.lt_succ_self _
  apart := by
    apply not_mem_ownFolders
    rw [isFolderAt, row_add_size, Option.any_some]
    exact decide_eq_false hKind
  foldersText f hf := by
    rw [h.folderKids_add_of_ne parent hKind, folderKids, kids_size] at hf
    cases hf

theorem Room.ne_of_mem_ownFolders (h : t.Room i) {p : Nat} (hp : p ∈ t.ownFolders i) : p ≠ i :=
  fun hEq => h.apart (hEq ▸ hp)

theorem Room.lt_size_of_mem_ownFolders (h : t.Room i) {p : Nat} (hp : p ∈ t.ownFolders i) :
    p < t.size := by
  rcases mem_ownFolders.mp hp with hMem | ⟨_, _, hMem⟩ <;>
    exact h.linked.lt_size_of_mem_folderKids hMem

-- ---------------------------------------------------------------------------
-- Entries
-- ---------------------------------------------------------------------------

/-- A folder of a node holds entries; without the folder there are none. -/
def Stored (t : Tree) (i : Nat) (name : String) (R : Tree → Nat → α → Prop) (entries : List α) :
    Prop :=
  (t.foldersIn i (Text.lower name) = [] ∧ entries = []) ∨
    ∃ f, t.foldersIn i (Text.lower name) = [f] ∧ List.Forall₂ (R t) (t.kids f) entries

/-- What a child of a node holds is kept if the node is left alone, and the child too if it is a
folder. -/
def Persists (R : Tree → Nat → α → Prop) : Prop :=
  ∀ {F : Nat → Prop} {t t' : Tree} {f j : Nat} {e : α}, Leaves F t t' → j ∈ t.kids f → F f →
    (j ∈ t.folderKids f → F j) → R t j e → R t' j e

theorem persists_propertyAt : Persists PropertyAt :=
  fun hLeaves hj hf _ h => h.leaves hLeaves hj hf

/-- What stands in the folder of a type stays when the folder and what hangs from it are left
alone. -/
theorem persists_typeFolderAt : Persists TypeFolderAt := by
  intro F t t' f j e hLeaves hj _ hFolder h
  obtain ⟨-, ⟨n, hRow, hKind, -⟩, -⟩ := id h
  exact h.leaves hLeaves (hFolder (mem_folderKids.mpr ⟨hj, n, hRow, hKind⟩))

/-- Entries are kept if their folder and the folders in it are left alone. -/
theorem Stored.leaves (h : t.Stored i name R entries) (hR : Persists R) (hLeaves : Leaves F t t')
    (hSame : t'.foldersIn i (Text.lower name) = t.foldersIn i (Text.lower name))
    (hF : ∀ f ∈ t.foldersIn i (Text.lower name), F f ∧ ∀ g ∈ t.folderKids f, F g) :
    t'.Stored i name R entries := by
  rcases h with ⟨hNone, hEmpty⟩ | ⟨f, hOne, hAt⟩
  · exact Or.inl ⟨hSame.trans hNone, hEmpty⟩
  · obtain ⟨hf, hg⟩ := hF f (hOne ▸ List.mem_singleton_self f)
    refine Or.inr ⟨f, hSame.trans hOne, ?_⟩
    rw [hLeaves.kids f hf]
    exact ((List.forall₂_and_left _ _).mpr ⟨fun _ h => h, hAt⟩).imp fun j e h =>
      hR hLeaves h.1 hf (hg j) h.2

/-- A folder with its entries is there or made, and there are no others but those that were there
under other names. -/
theorem Stored.ensureFolder (h : t.Stored i name R entries) (hRoom : t.Room i) :
    ∃ t' f, t.ensureFolder (.int i) name = .ok (t', f) ∧
      t'.foldersIn i (Text.lower name) = [f] ∧ List.Forall₂ (R t') (t'.kids f) entries ∧
      ∀ key, key ≠ Text.lower name → t'.foldersIn i key = t.foldersIn i key := by
  have hi := hRoom.lt_size
  rcases h with ⟨hNone, rfl⟩ | ⟨f, hOne, hAt⟩
  · refine ⟨_, _, ensureFolder_of_none hRoom.foldersText hi (by rw [hNone]; rfl), ?_, ?_, ?_⟩
    · rw [hRoom.linked.foldersIn_add, hNone, isNamed_folder, host?_int hi,
        if_pos ⟨rfl, decide_eq_true rfl⟩]
      rfl
    · rw [kids_add hi, if_neg (Nat.ne_of_gt hi), kids_size]
      exact List.Forall₂.nil
    · intro key hKey
      rw [hRoom.linked.foldersIn_add, isNamed_folder, if_neg, List.append_nil]
      exact fun hBoth => hKey (of_decide_eq_true hBoth.2).symm
  · exact ⟨t, f, hRoom.linked.ensureFolder_of_some hRoom.foldersText hi (by rw [hOne]; rfl), hOne,
      hAt, fun _ _ => rfl⟩

/-- Entries are kept when something is put right below the node that is no folder of theirs. -/
theorem Stored.puts_here (h : t.Stored i name R entries) (hR : Persists R) (hRoom : t.Room i)
    (hPuts : Puts (· = i) t t')
    (hSame : t'.foldersIn i (Text.lower name) = t.foldersIn i (Text.lower name)) :
    t'.Stored i name R entries := by
  refine h.leaves hR (hPuts.leaves hRoom.linked) hSame fun f hf => ?_
  have hFolder {p : Nat} (hp : p ∈ t.ownFolders i) : p < t.size ∧ p ≠ i :=
    ⟨hRoom.lt_size_of_mem_ownFolders hp, hRoom.ne_of_mem_ownFolders hp⟩
  have hf := mem_folderKids_of_mem_foldersIn hf
  exact ⟨hFolder (mem_ownFolders.mpr (Or.inl hf)),
    fun g hg => hFolder (mem_ownFolders.mpr (Or.inr ⟨f, hf, hg⟩))⟩

/-- What is put into a folder does not reach the node itself. -/
theorem Room.not_within (h : t.Room i) (hf : f ∈ t.folderKids i) : ¬ t.Within f i := by
  rintro (rfl | hMem | hNew)
  · exact h.apart (mem_ownFolders.mpr (Or.inl hf))
  · exact h.apart (mem_ownFolders.mpr (Or.inr ⟨f, hf, hMem⟩))
  · exact hNew.not_gt h.lt_size

/-- What is put into a folder of a node makes or names no folder of the node itself. -/
theorem Room.foldersIn_eq (h : t.Room i) (hf : f ∈ t.folderKids i)
    (hPuts : Puts (t.Within f) t t') (key : String) : t'.foldersIn i key = t.foldersIn i key :=
  (hPuts.leaves h.linked).foldersIn_eq h.linked ⟨h.lt_size, h.not_within hf⟩ key

/-- What is put into a folder does not reach another folder of the node, nor the folders in it. -/
theorem Room.not_within_other {g : Nat} (h : t.Room i) (hf : f ∈ t.folderKids i)
    (hg : g ∈ t.folderKids i) (hne : g ≠ f) :
    ¬ t.Within f g ∧ ∀ c ∈ t.folderKids g, ¬ t.Within f c := by
  have hgKid := folderKids_subset hg
  -- neither folder is in the other, for both are in the node, and that is in neither
  have hApart {a b : Nat} (ha : a ∈ t.folderKids i) (hb : b ∈ t.folderKids i) : b ∉ t.kids a :=
    fun hMem => h.ne_of_mem_ownFolders (mem_ownFolders.mpr (Or.inl ha))
      (h.linked.parent_unique a i b hMem (folderKids_subset hb))
  constructor
  · rintro (hEq | hMem | hNew)
    · exact hne hEq
    · exact hApart hf hg (folderKids_subset hMem)
    · exact hNew.not_gt (h.linked.lt_size i g hgKid)
  · intro c hc
    have hcKid := folderKids_subset hc
    rintro (rfl | hMem | hNew)
    · exact hApart hg hf hcKid
    · exact hne (h.linked.parent_unique g f c hcKid (folderKids_subset hMem))
    · exact hNew.not_gt (h.linked.lt_size g c hcKid)

/-- Entries are kept when something is put into a folder with another name. -/
theorem Stored.puts_within (h : t.Stored i other R entries) (hR : Persists R) (hRoom : t.Room i)
    (hf : f ∈ t.foldersIn i (Text.lower name)) (hNe : Text.lower other ≠ Text.lower name)
    (hPuts : Puts (t.Within f) t t') : t'.Stored i other R entries := by
  have hLinked := hRoom.linked
  have hfMem := mem_folderKids_of_mem_foldersIn hf
  refine h.leaves hR (hPuts.leaves hLinked) (hRoom.foldersIn_eq hfMem hPuts _) fun g hg => ?_
  have hgMem := mem_folderKids_of_mem_foldersIn hg
  obtain ⟨hOut, hOutBelow⟩ := hRoom.not_within_other hfMem hgMem (ne_of_mem_foldersIn hg hf hNe)
  exact ⟨⟨hLinked.lt_size_of_mem_folderKids hgMem, hOut⟩,
    fun c hc => ⟨hLinked.lt_size_of_mem_folderKids hc, hOutBelow c hc⟩⟩

-- ---------------------------------------------------------------------------
-- Tables
-- ---------------------------------------------------------------------------

/-- The folders of a node hold a table of properties and a table of items. -/
structure Tables (t : Tree) (i : Nat) (m : Ordered String (String × String))
    (k : Ordered String (String × List Item)) : Prop where
  nodupProperties : m.keys.Nodup
  nodupItems : k.keys.Nodup
  properties : t.Stored i propertiesFolder PropertyAt m.entries
  items : t.Stored i itemsFolder TypeFolderAt k.entries

theorem folders_ne : Text.lower propertiesFolder ≠ Text.lower itemsFolder := by
  decide

variable {m : Ordered String (String × String)} {k : Ordered String (String × List Item)}

/-- Without folders the tables are empty. -/
theorem tables_empty (h : ∀ key, t.foldersIn i key = []) : t.Tables i .empty .empty where
  nodupProperties := List.nodup_nil
  nodupItems := List.nodup_nil
  properties := Or.inl ⟨h _, rfl⟩
  items := Or.inl ⟨h _, rfl⟩

/-- The tables are kept if all folders are left alone and none with a name comes or goes. -/
theorem Tables.leaves (h : t.Tables i m k) (hLeaves : Leaves F t t')
    (hSame : ∀ key, t'.foldersIn i key = t.foldersIn i key) (hF : ∀ p ∈ t.ownFolders i, F p) :
    t'.Tables i m k := by
  have hOwn (key : String) : ∀ f ∈ t.foldersIn i key, F f ∧ ∀ g ∈ t.folderKids f, F g := by
    intro f hf
    have hf := mem_folderKids_of_mem_foldersIn hf
    exact ⟨hF f (mem_ownFolders.mpr (Or.inl hf)),
      fun g hg => hF g (mem_ownFolders.mpr (Or.inr ⟨f, hf, hg⟩))⟩
  exact ⟨h.nodupProperties, h.nodupItems,
    h.properties.leaves persists_propertyAt hLeaves (hSame _) (hOwn _),
    h.items.leaves persists_typeFolderAt hLeaves (hSame _) (hOwn _)⟩

/-- A new node that is no folder leaves the tables alone, unless it is put into the folders. -/
theorem Tables.add (h : t.Tables i m k) (hLinked : t.Linked) {parent : Value} {n : Node}
    (hKind : n.kind ≠ .folder) (hHost : ∀ p ∈ t.host? parent, p ∉ t.ownFolders i) :
    (t.add parent n).Tables i m k := by
  refine h.leaves (leaves_add t parent n) (fun key => ?_) fun p hp hEq => hHost p hEq hp
  rw [hLinked.foldersIn_add, if_neg, List.append_nil]
  rintro ⟨_, hNamed⟩
  rw [Node.isNamed, Bool.and_eq_true, decide_eq_true_eq] at hNamed
  exact hKind hNamed.1

/-- Reported properties are added to the table of properties. -/
theorem Tables.setProperties (h : t.Tables i m k) (hRoom : t.Room i)
    (ps : List (String × String)) :
    ∃ t', t.setProperties (.int i) (.object (ps.map fun p => (p.1, .text p.2))) = (t', none) ∧
      t'.Tables i (ps.foldl Filing.addProperty m) k := by
  cases hps : ps with
  | nil => exact ⟨t, rfl, h⟩
  | cons p rest =>
    rw [← hps]
    obtain ⟨t₁, f, hEnsure, hOne, hAt, hOther⟩ := h.properties.ensureFolder hRoom
    obtain ⟨hPuts₁, hfMem⟩ := hRoom.linked.puts_ensureFolder hRoom.lt_size hEnsure
    have hRoom₁ := hRoom.puts hPuts₁
    have hLinked₁ := hRoom₁.linked
    have hf := hLinked₁.lt_size_of_mem_folderKids hfMem
    have hNodup : ((m.places (t₁.kids f)).reverse.map (·.1)).Nodup := by
      rw [List.map_reverse, List.nodup_reverse, Ordered.map_places hAt.length_eq]
      exact h.nodupProperties
    -- the names that are known before the first write are those of the table
    have hIndex : propertyIndex [] (t₁.childrenAt f) = .ok (m.places (t₁.kids f)).reverse := by
      rw [childrenAt_eq hf, hLinked₁.propertyIndex_eq hAt, List.append_nil]
    obtain ⟨t', hWrite, hAt'⟩ := hLinked₁.writeProperties_eq ps hf h.nodupProperties hAt
      fun key j => by rw [Ordered.lookup_eq_some_iff_mem hNodup, List.mem_reverse]
    have hKnown : ∀ e ∈ (m.places (t₁.kids f)).reverse, t₁.PropertyKid f e.2 := by
      intro e he
      have hMem := List.mem_reverse.mp he
      obtain ⟨_, _, -, n, hRow, hKind, -⟩ := Ordered.exists_of_mem_places hAt hMem
      exact ⟨(List.of_mem_zip hMem).2, n, hRow, hKind⟩
    have hPuts : Puts (t₁.Within f) t₁ t' :=
      hWrite ▸ (hLinked₁.puts_writeProperties (List.mem_filter.mp hfMem).2 hKnown _).mono
        fun _ => Or.inl
    refine ⟨t', ?_, Filing.nodup_addProperties ps h.nodupProperties, h.nodupItems,
      Or.inr ⟨f, (hRoom₁.foldersIn_eq hfMem hPuts _).trans hOne, hAt'⟩, ?_⟩
    · have hHolds : (Value.object (ps.map fun p => (p.1, .text p.2))).holds = true := by
        rw [hps]
        rfl
      rw [Tree.setProperties, if_pos hHolds, hEnsure]
      simp only [hIndex, hWrite]
    · -- the folder of the items is neither made nor written into
      have hItems₁ := h.items.puts_here persists_typeFolderAt hRoom hPuts₁
        (hOther _ (Ne.symm folders_ne))
      exact hItems₁.puts_within persists_typeFolderAt hRoom₁ (hOne ▸ List.mem_singleton_self f)
        (Ne.symm folders_ne) hPuts

/-- Reported items are added to the table of items. -/
theorem Tables.addItems (h : t.Tables i m k) (hRoom : t.Room i) (items : List Item) :
    ∃ t', t.addItems (.int i) items = (t', none) ∧
      t'.Tables i m (items.foldl Filing.addItem k) := by
  cases hItems : items with
  | nil => exact ⟨t, rfl, h⟩
  | cons item rest =>
    rw [← hItems]
    obtain ⟨t₁, f, hEnsure, hOne, hAt, hOther⟩ := h.items.ensureFolder hRoom
    obtain ⟨hPuts₁, hfMem⟩ := hRoom.linked.puts_ensureFolder hRoom.lt_size hEnsure
    have hRoom₁ := hRoom.puts hPuts₁
    have hLinked₁ := hRoom₁.linked
    -- the folder is in the node, so it is not in itself
    have hSelf : f ∉ t₁.kids f := fun hMem =>
      hRoom₁.ne_of_mem_ownFolders (mem_ownFolders.mpr (Or.inl hfMem))
        (hLinked₁.parent_unique f i f hMem (folderKids_subset hfMem))
    obtain ⟨t', hFile, hAt'⟩ := hLinked₁.fileItems_eq items
      (hLinked₁.lt_size_of_mem_folderKids hfMem) hSelf h.nodupItems hAt
    have hPuts : Puts (t₁.Within f) t₁ t' := by
      have hPuts := hLinked₁.puts_fileItems (List.mem_filter.mp hfMem).2 items
      rwa [hFile] at hPuts
    refine ⟨t', ?_, h.nodupProperties, Filing.nodup_addItems items h.nodupItems, ?_,
      Or.inr ⟨f, (hRoom₁.foldersIn_eq hfMem hPuts _).trans hOne, hAt'⟩⟩
    · have hSome : items.isEmpty = false := by
        rw [hItems]
        rfl
      rw [Tree.addItems, hSome, if_neg Bool.false_ne_true, hEnsure]
      exact hFile
    · -- the folder of the properties is neither made nor written into
      have hProperties₁ := h.properties.puts_here persists_propertyAt hRoom hPuts₁
        (hOther _ folders_ne)
      exact hProperties₁.puts_within persists_propertyAt hRoom₁
        (hOne ▸ List.mem_singleton_self f) folders_ne hPuts

end BuildDigest.Tree
