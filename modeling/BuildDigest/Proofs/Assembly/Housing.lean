import BuildDigest.Proofs.Assembly.Settled

/-!
# Where nodes stand

The root alone is a build. Below it a folder is one of the two of a project or one of
a type, and whatever is filed stands in such a folder. That goes for every single
edit, so it goes for every tree that events come to. No two folders of a node, and no
two properties of a folder, have the same name without case.

* `Tree.HousedAt`, `Tree.Housed` — a node, and all nodes, stand where they belong.
* `Edit.housed` — edits keep that.
* `Represents.eq_of_foldedName` — a name is used once in a folder.
* `Assembly.Represents.housed_steps` — the nodes after any events.
-/

namespace BuildDigest

namespace Tree

variable {t t' : Tree} {O K : Nat → Prop} {S : Nat → Prop} {c d f i j p : Nat} {n m : Node}
  {name key : String}

/-- A node below the root stands where nodes of its kind belong. -/
inductive HousedAt (t : Tree) (n : Node) : Prop
  | logged (hLogged : n.kind.isFiling = false) (hBuild : n.kind ≠ .build)
  | projectFolder {p : Nat} (hKind : n.kind = .folder) (hProject : t.isProjectAt p = true)
      (hName : ∃ name, (name = propertiesFolder ∨ name = itemsFolder) ∧ n.name = .text name)
      (hParent : n.parentIndex = some p)
  | typeFolder {p f : Nat} (hKind : n.kind = .folder) (hAt : t.SectionAt p itemsFolder f)
      (hParent : n.parentIndex = some f)
  | property {p f : Nat} (hKind : n.kind = .nameValue) (hAt : t.SectionAt p propertiesFolder f)
      (hParent : n.parentIndex = some f)
  | item {p f g : Nat} {key : String} (hKind : n.kind = .item) (hAt : t.SectionAt p itemsFolder f)
      (hIn : g ∈ t.foldersNamed f key) (hParent : n.parentIndex = some g)

/-- All nodes below the root stand where they belong. -/
def Housed (t : Tree) : Prop :=
  ∀ j n, j ≠ 0 → t.row j = some n → t.HousedAt n

-- ---------------------------------------------------------------------------
-- Edits
-- ---------------------------------------------------------------------------

/-- A node that stood where it belongs stands there still when the tree has only grown around it. -/
theorem HousedAt.spares (h : t.HousedAt n) (hSpares : Spares S t t') (hLabel : m.label = n.label) :
    t'.HousedAt m := by
  obtain ⟨hKind', hName', hParent', _⟩ := Node.label_eq_iff.mp hLabel
  cases h with
  | logged hLogged hBuild => exact .logged (hKind' ▸ hLogged) (hKind' ▸ hBuild)
  | projectFolder hKind hProject hName hParent =>
    refine .projectFolder (hKind'.trans hKind) ?_ (hName' ▸ hName) (hParent'.trans hParent)
    rw [hSpares.isProjectAt_eq (lt_size_of_isProjectAt hProject), hProject]
  | typeFolder hKind hAt hParent =>
    exact .typeFolder (hKind'.trans hKind) (hAt.spares hSpares) (hParent'.trans hParent)
  | property hKind hAt hParent =>
    exact .property (hKind'.trans hKind) (hAt.spares hSpares) (hParent'.trans hParent)
  | item hKind hAt hIn hParent =>
    exact .item (hKind'.trans hKind) (hAt.spares hSpares) (mem_foldersNamed_of_spares hSpares hIn)
      (hParent'.trans hParent)

/-- A row of a tree that has grown by one node is an earlier row or the new node. -/
theorem eq_placed_of_row_add {q : Nat} (hRow : (t.add (.int q) m).row j = some n)
    (hNew : ¬ j < t.size) : n = m.placed t.size (.int q) := by
  rw [row_add] at hRow
  split at hRow
  · exact (Option.some.inj hRow).symm
  · exact absurd (lt_size_of_row hRow) hNew

/-- An edit puts no node where it does not belong. -/
theorem Edit.housed (h : Edit O K t t') (hHoused : t.Housed) : t'.Housed := by
  intro j n hRoot hRow
  by_cases hOld : j < t.size
  · obtain ⟨n₀, hRow₀⟩ := exists_row hOld
    have hSpares := h.spares (Nat.zero_lt_of_lt hOld)
    obtain ⟨n', hRow', hLabel, _⟩ := hSpares.row j n₀ hRow₀
    rw [hRow] at hRow'
    cases hRow'
    exact (hHoused j n₀ hRoot hRow₀).spares hSpares hLabel
  · -- the node is the one that the edit puts in
    cases h with
    | root hEmpty =>
      have hSize := lt_size_of_row hRow
      rw [size_add, hEmpty] at hSize
      exact absurd (Nat.lt_one_iff.mp hSize) hRoot
    | log _ _ hLogged hBuild =>
      obtain rfl := eq_placed_of_row_add hRow hOld
      exact .logged hLogged hBuild
    | finish | value =>
      have hSize := lt_size_of_row hRow
      rw [size_change] at hSize
      exact absurd hSize hOld
    | folder _ hProject hName =>
      obtain rfl := eq_placed_of_row_add hRow hOld
      refine .projectFolder rfl ?_ ⟨_, hName, rfl⟩ (Node.parentIndex_placed_int ..)
      rw [(spares_add t _ _).isProjectAt_eq (lt_size_of_isProjectAt hProject), hProject]
    | property _ _ _ hAt =>
      obtain rfl := eq_placed_of_row_add hRow hOld
      exact .property rfl (hAt.spares (spares_add t _ _)) (Node.parentIndex_placed_int ..)
    | typeFolder _ _ hAt =>
      obtain rfl := eq_placed_of_row_add hRow hOld
      exact .typeFolder rfl (hAt.spares (spares_add t _ _)) (Node.parentIndex_placed_int ..)
    | item _ _ hAt hIn =>
      obtain rfl := eq_placed_of_row_add hRow hOld
      exact .item rfl (hAt.spares (spares_add t _ _))
        (mem_foldersNamed_of_spares (spares_add t _ _) hIn) (Node.parentIndex_placed_int ..)

theorem Edits.housed (h : Edits O K t t') (hHoused : t.Housed) : t'.Housed := by
  induction h with
  | refl => exact hHoused
  | tail _ hEdit ih => exact hEdit.housed ih

-- ---------------------------------------------------------------------------
-- Nodes of a kind
-- ---------------------------------------------------------------------------

/-- A folder that stands where it belongs is one of the two of a project, or one of a type. -/
theorem HousedAt.of_folder (h : t.HousedAt n) (hKind : n.kind = .folder) :
    ∃ p, n.parentIndex = some p ∧
      ((t.isProjectAt p = true ∧ ∃ name, (name = propertiesFolder ∨ name = itemsFolder) ∧
        n.name = .text name) ∨ ∃ q, t.SectionAt q itemsFolder p) := by
  cases h with
  | projectFolder _ hProject hName hParent => exact ⟨_, hParent, Or.inl ⟨hProject, hName⟩⟩
  | typeFolder _ hAt hParent => exact ⟨_, hParent, Or.inr ⟨_, hAt⟩⟩
  | logged hLogged => rw [hKind] at hLogged; cases hLogged
  | property hOther | item hOther => rw [hKind] at hOther; cases hOther

/-- A property that stands where it belongs stands in the folder of properties of a project. -/
theorem HousedAt.of_property (h : t.HousedAt n) (hKind : n.kind = .nameValue) :
    ∃ p f, t.SectionAt p propertiesFolder f ∧ n.parentIndex = some f := by
  cases h with
  | property _ hAt hParent => exact ⟨_, _, hAt, hParent⟩
  | logged hLogged => rw [hKind] at hLogged; cases hLogged
  | projectFolder hOther | typeFolder hOther | item hOther => rw [hKind] at hOther; cases hOther

/-- An item that stands where it belongs stands in the folder of a type. -/
theorem HousedAt.of_item (h : t.HousedAt n) (hKind : n.kind = .item) :
    ∃ p f g key, t.SectionAt p itemsFolder f ∧ g ∈ t.foldersNamed f key ∧
      n.parentIndex = some g := by
  cases h with
  | item _ hAt hIn hParent => exact ⟨_, _, _, _, hAt, hIn, hParent⟩
  | logged hLogged => rw [hKind] at hLogged; cases hLogged
  | projectFolder hOther | typeFolder hOther | property hOther =>
    rw [hKind] at hOther
    cases hOther

-- ---------------------------------------------------------------------------
-- The folders of a project
-- ---------------------------------------------------------------------------

/-- A folder found by name is a folder with that name below the node. -/
theorem kind_of_mem_foldersNamed (hf : f ∈ t.foldersNamed p key) :
    ∃ n, t.row f = some n ∧ n.kind = .folder ∧ n.parentIndex = some p ∧
      n.foldedName = some key := by
  obtain ⟨n, hRow, hParent, hNamed⟩ := mem_foldersNamed.mp hf
  rw [Node.isNamed, Bool.and_eq_true, decide_eq_true_eq, decide_eq_true_eq] at hNamed
  exact ⟨n, hRow, hNamed.1, hParent, hNamed.2⟩

theorem isProjectAt_of_mem_foldersNamed (hf : f ∈ t.foldersNamed p key) :
    t.isProjectAt f = false := by
  obtain ⟨n, hRow, hKind, _⟩ := kind_of_mem_foldersNamed hf
  rw [isProjectAt, hRow, Option.any_some, Node.isProject, hKind]
  rfl

/-- The folder of a project with one of the two names is spelled like it. -/
theorem Housed.name_of_sectionAt (h : t.Housed) (hWf : t.WellFormed)
    (hName : name = propertiesFolder ∨ name = itemsFolder) (hAt : t.SectionAt p name f) :
    ∃ n, t.row f = some n ∧ n.kind = .folder ∧ n.parentIndex = some p ∧ n.name = .text name := by
  obtain ⟨n, hRow, hKind, hParent, hFolded⟩ := kind_of_mem_foldersNamed hAt.2
  have hPos : f ≠ 0 :=
    Nat.ne_of_gt (Nat.zero_lt_of_lt (hWf.lt_of_parent? (parent?_of_mem_foldersNamed hAt.2)))
  refine ⟨n, hRow, hKind, hParent, ?_⟩
  obtain ⟨q, hParent', ⟨-, name', hOne, hText⟩ | ⟨_, hIn⟩⟩ := (h f n hPos hRow).of_folder hKind
  · rw [Node.foldedName, hText] at hFolded
    have hFolded : Text.lower name' = Text.lower name := Option.some.inj hFolded
    rw [hText]
    -- the two names differ without case
    rcases hOne with rfl | rfl <;> rcases hName with rfl | rfl
    · rfl
    · exact absurd hFolded folders_ne
    · exact absurd hFolded.symm folders_ne
    · rfl
  · -- the folder of a project stands in no other folder
    rw [hParent] at hParent'
    cases hParent'
    have hProject := hAt.1
    rw [isProjectAt_of_mem_foldersNamed hIn.2] at hProject
    cases hProject

-- ---------------------------------------------------------------------------
-- Names are used once
-- ---------------------------------------------------------------------------

/-- A shelf has one folder under its name, and this folder holds the entries. -/
theorem Shelved.of_mem {α : Type} {R : Nat → α → Prop} {entries : List α}
    (h : t.Shelved i name R entries) (hf : f ∈ t.foldersNamed i (Text.lower name)) :
    t.foldersNamed i (Text.lower name) = [f] ∧ List.Forall₂ R (t.kids f) entries := by
  rcases h with ⟨hNone, -⟩ | ⟨g, hOne, hAt⟩
  · rw [hNone] at hf
    cases hf
  · rw [hOne, List.mem_singleton] at hf
    subst hf
    exact ⟨hOne, hAt⟩

/-- Nodes with the keys of a table have different keys. -/
theorem eq_of_key {α : Type} {R : Nat → String × α → Prop} {entries : List (String × α)}
    {js : List Nat} {key : Nat → Option String} (h : List.Forall₂ R js entries)
    (hKey : ∀ j e, R j e → key j = some e.1) (hNodup : (entries.map (·.1)).Nodup)
    (hc : c ∈ js) (hd : d ∈ js) (hSame : key c = key d) : c = d := by
  have hKeys : List.Forall₂ (· = ·) (js.map key) ((entries.map (·.1)).map some) := by
    rw [List.forall₂_map_left_iff, List.forall₂_map_right_iff, List.forall₂_map_right_iff]
    exact h.imp hKey
  rw [List.forall₂_eq_eq_eq] at hKeys
  exact List.inj_on_of_nodup_map (hKeys ▸ hNodup.map (Option.some_injective _)) hc hd hSame

/-- The folded name of a node. -/
def foldedAt (t : Tree) (j : Nat) : Option String :=
  (t.row j).bind Node.foldedName

theorem PropertyAt.foldedAt {e : String × String × String} (h : t.PropertyAt j e) :
    t.foldedAt j = some e.1 := by
  obtain ⟨hKey, n, hRow, _, hName, _⟩ := h
  rw [Tree.foldedAt, hRow, Option.bind_some, Node.foldedName, hName, hKey]

theorem TypeFolderAt.foldedAt {e : String × String × List Item} (h : t.TypeFolderAt j e) :
    t.foldedAt j = some e.1 := by
  obtain ⟨hKey, ⟨n, hRow, _, hName⟩, _⟩ := h
  rw [Tree.foldedAt, hRow, Option.bind_some, Node.foldedName, hName, hKey]

variable {l : Ledger}

/-- In a tree that represents a ledger every project holds an entry. -/
theorem Represents.exists_entryAt (h : t.Represents i l) (hProject : t.isProjectAt p = true) :
    ∃ b, t.EntryAt p b := by
  have hMem : p ∈ t.select Node.isProject := by
    rw [isProjectAt, Option.any_eq_true] at hProject
    exact mem_select.mpr hProject
  obtain ⟨b, -, hEntry⟩ := exists_of_mem_left h.entries hMem
  exact ⟨b, hEntry⟩

/-- A project with its shelf has no two folders under one of the two names. -/
theorem Shelf.eq_of_mem {k : Ordered String (String × String)}
    {k' : Ordered String (String × List Item)} (h : t.Shelf p k k')
    (hName : name = propertiesFolder ∨ name = itemsFolder)
    (hc : c ∈ t.foldersNamed p (Text.lower name)) (hd : d ∈ t.foldersNamed p (Text.lower name)) :
    c = d := by
  have hOne : t.foldersNamed p (Text.lower name) = [c] := by
    rcases hName with rfl | rfl
    · exact (h.properties.of_mem hc).1
    · exact (h.items.of_mem hc).1
  rw [hOne, List.mem_singleton] at hd
  exact hd.symm

/-- What is filed is not the root. -/
theorem Represents.ne_zero_of_isFiling (h : t.Represents i l) (hn : t.row j = some n)
    (hFiling : n.kind.isFiling = true) : j ≠ 0 := by
  rintro rfl
  obtain ⟨r, hr, hBuild⟩ := h.standing.root
  rw [hn] at hr
  cases hr
  rw [hBuild] at hFiling
  cases hFiling

/-- Two folders of a node, or two properties of a folder, have different names without case. -/
theorem Represents.eq_of_foldedName (h : t.Represents i l) (hHoused : t.Housed)
    (hn : t.row c = some n) (hm : t.row d = some m) (hKind : n.kind = .folder ∨ n.kind = .nameValue)
    (hSame : m.kind = n.kind) (hParent : m.parentIndex = n.parentIndex)
    (hFolded : m.foldedName = n.foldedName) : c = d := by
  have hFiling : n.kind.isFiling = true := by
    rcases hKind with hKind | hKind <;> rw [hKind] <;> rfl
  have hAt := hHoused c n (h.ne_zero_of_isFiling hn hFiling) hn
  have hFoldedAt : t.foldedAt c = t.foldedAt d := by
    rw [foldedAt, foldedAt, hn, hm, Option.bind_some, Option.bind_some, hFolded]
  have hKids : ∀ f, n.parentIndex = some f → c ∈ t.kids f ∧ d ∈ t.kids f := by
    intro f hf
    rw [h.standing.wellFormed.mem_kids, h.standing.wellFormed.mem_kids, parent?, parent?, hn, hm]
    exact ⟨hf, hParent.trans hf⟩
  rcases hKind with hKind | hKind
  · obtain ⟨p, hUnder, ⟨hProject, name, hName, hText⟩ | ⟨q, hIn⟩⟩ := hAt.of_folder hKind
    · obtain ⟨b, hEntry⟩ := h.exists_entryAt hProject
      have hKey : n.isNamed .folder (Text.lower name) = true := by
        rw [Node.isNamed, Node.foldedName, hText]
        simp [hKind]
      refine hEntry.shelf.eq_of_mem hName (mem_foldersNamed.mpr ⟨n, hn, hUnder, hKey⟩)
        (mem_foldersNamed.mpr ⟨m, hm, hParent.trans hUnder, ?_⟩)
      rwa [Node.isNamed, hSame, hFolded]
    · obtain ⟨b, hEntry⟩ := h.exists_entryAt hIn.1
      obtain ⟨hc, hd⟩ := hKids p hUnder
      exact eq_of_key (hEntry.shelf.items.of_mem hIn.2).2 (fun _ _ => TypeFolderAt.foldedAt)
        hEntry.shelf.nodupItems hc hd hFoldedAt
  · obtain ⟨p, f, hIn, hUnder⟩ := hAt.of_property hKind
    obtain ⟨b, hEntry⟩ := h.exists_entryAt hIn.1
    obtain ⟨hc, hd⟩ := hKids f hUnder
    exact eq_of_key (hEntry.shelf.properties.of_mem hIn.2).2 (fun _ _ => PropertyAt.foldedAt)
      hEntry.shelf.nodupProperties hc hd hFoldedAt

end Tree

namespace Assembly

variable {a a' : Assembly} {l : Ledger} {events : List Event}

/-- After any events of text fields all nodes stand where they belong. -/
theorem Represents.housed_steps (h : a.Represents l) (hTextual : ∀ e ∈ events, e.Textual)
    (hSteps : a.steps events = .ok a') (hHoused : a.tree.Housed) : a'.tree.Housed := by
  apply h.steps_induction (motive := fun b => b.tree.Housed) hTextual hSteps hHoused
  exact fun _ _ _ _ hAdvances => Tree.Edits.housed hAdvances.edits

end Assembly

end BuildDigest
