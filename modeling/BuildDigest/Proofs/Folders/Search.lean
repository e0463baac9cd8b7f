import BuildDigest.Proofs.Folders.Frame
import BuildDigest.Proofs.Tree.Linked
import BuildDigest.Tree.Folders

/-!
# Folders are found

A search among the children of a node is a search along their indices, and the
folder that is put up for a name is the one that is there or the next node.

* `Tree.foldersIn` — the folders in a node with a name.
* `findChild_eq` — the child of a kind and a name.
* `Linked.ensureFolder_of_some`, `Linked.ensureFolder_of_none` — the folder of a name.
* `Linked.foldersIn_add` — what a new node changes.
* `WellFormed.foldersNamed_eq` — in a well-formed tree the parents tell the same.
-/

namespace BuildDigest.Tree

variable {t : Tree} {i : Nat} {name : String}

/-- Whether a folder stands at an index. -/
def isFolderAt (t : Tree) (j : Nat) : Bool :=
  (t.row j).any fun n => n.kind = .folder

/-- The folders among the children of a node. -/
def folderKids (t : Tree) (i : Nat) : List Nat :=
  (t.kids i).filter t.isFolderAt

/-- The folders among the children of a node that have a name in lower case. -/
def foldersIn (t : Tree) (i : Nat) (key : String) : List Nat :=
  (t.kids i).filter fun j => (t.row j).any (Node.isNamed .folder key)

/-- The folders among the children of a node have texts for names. -/
def FoldersText (t : Tree) (i : Nat) : Prop :=
  ∀ f ∈ t.folderKids i, ∀ n, t.row f = some n → ∃ s, n.name = .text s

theorem isFolderAt_eq_true {j : Nat} :
    t.isFolderAt j = true ↔ ∃ n, t.row j = some n ∧ n.kind = .folder := by
  simp [isFolderAt, Option.any_eq_true]

theorem lt_size_of_isFolderAt {j : Nat} (h : t.isFolderAt j = true) : j < t.size := by
  obtain ⟨n, hRow, _⟩ := isFolderAt_eq_true.mp h
  exact lt_size_of_row hRow

theorem mem_folderKids {f : Nat} :
    f ∈ t.folderKids i ↔ f ∈ t.kids i ∧ ∃ n, t.row f = some n ∧ n.kind = .folder := by
  rw [folderKids, List.mem_filter, isFolderAt_eq_true]

theorem folderKids_subset : t.folderKids i ⊆ t.kids i :=
  fun _ hf => (List.mem_filter.mp hf).1

theorem not_mem_folderKids {j : Nat} (hj : t.isFolderAt j = false) : j ∉ t.folderKids i := by
  rw [folderKids, List.mem_filter, hj]
  exact fun h => Bool.false_ne_true h.2

/-- A folder of a name is a child with this kind and name. -/
theorem mem_foldersIn {f : Nat} {key : String} :
    f ∈ t.foldersIn i key ↔
      f ∈ t.kids i ∧ ∃ n, t.row f = some n ∧ n.isNamed .folder key = true := by
  rw [foldersIn, List.mem_filter, Option.any_eq_true]

theorem mem_folderKids_of_mem_foldersIn {f : Nat} {key : String} (hf : f ∈ t.foldersIn i key) :
    f ∈ t.folderKids i := by
  obtain ⟨hKid, n, hRow, hNamed⟩ := mem_foldersIn.mp hf
  rw [Node.isNamed, Bool.and_eq_true, decide_eq_true_eq] at hNamed
  exact mem_folderKids.mpr ⟨hKid, n, hRow, hNamed.1⟩

/-- A folder has one name. -/
theorem ne_of_mem_foldersIn {f g : Nat} {key key' : String} (hf : f ∈ t.foldersIn i key)
    (hg : g ∈ t.foldersIn i key') (hKey : key ≠ key') : f ≠ g := by
  rintro rfl
  obtain ⟨-, n, hRow, hNamed⟩ := mem_foldersIn.mp hf
  obtain ⟨-, n', hRow', hNamed'⟩ := mem_foldersIn.mp hg
  obtain rfl := Option.some.inj (hRow.symm.trans hRow')
  rw [Node.isNamed, Bool.and_eq_true, decide_eq_true_eq, decide_eq_true_eq] at hNamed hNamed'
  exact hKey (Option.some.inj (hNamed.2.symm.trans hNamed'.2))

theorem NamesText.foldersText (h : t.NamesText) (i : Nat) : t.FoldersText i :=
  fun f _ n hRow => h f n hRow

-- ---------------------------------------------------------------------------
-- Searches
-- ---------------------------------------------------------------------------

/-- The first of some nodes that has a kind and a name. -/
theorem findNode_eq (kind : Node.Kind) (key : String) {js : List Nat}
    (hNames : ∀ j ∈ js, ∀ n, t.row j = some n → n.kind = kind → ∃ s, n.name = .text s) :
    findNode kind (some key) (t.nodesAt js) =
      .ok ((js.find? fun j => (t.row j).any (Node.isNamed kind key)).bind (t.nodes[·]?)) := by
  induction js with
  | nil => rfl
  | cons j js ih =>
    rw [List.forall_mem_cons] at hNames
    have ih := ih hNames.2
    cases hn : t.nodes[j]? with
    | none =>
      have hRow : t.row j = none := by rw [row, hn, Option.map_none]
      rw [nodesAt, List.filterMap_cons, hn, List.find?_cons, hRow]
      exact ih
    | some n =>
      have hRow : t.row j = some n.bare := by rw [row, hn, Option.map_some]
      rw [nodesAt_cons_of_nodes hn, List.find?_cons, hRow, Option.any_some, findNode]
      by_cases hKind : n.kind = kind
      · obtain ⟨s, hs⟩ := hNames.1 n.bare hRow hKind
        have hs : n.name = .text s := hs
        have hNamed : n.bare.isNamed kind key = decide (Text.lower s = key) := by
          simp [Node.isNamed, Node.foldedName, Node.bare, hs, hKind]
        rw [if_neg (not_not.mpr hKind), hs, Value.asText_text, hNamed]
        by_cases hKey : Text.lower s = key
        · simp [hKey, hn]
        · simpa [hKey] using ih
      · have hNamed : n.bare.isNamed kind key = false := by
          simp [Node.isNamed, Node.bare, hKind]
        rw [if_pos hKind, hNamed]
        exact ih

/-- A search by name goes through the children in their order, if those of the kind have texts for
names. -/
theorem findChild_eq (hi : i < t.size) (kind : Node.Kind) (name : String)
    (hNames : ∀ j ∈ t.kids i, ∀ n, t.row j = some n → n.kind = kind → ∃ s, n.name = .text s) :
    t.findChild (.int i) kind (.text name) =
      .ok (((t.kids i).find? fun j =>
        (t.row j).any (Node.isNamed kind (Text.lower name))).bind (t.nodes[·]?)) := by
  have hFold : foldName (.text name) = .ok (some (Text.lower name)) := rfl
  simp only [findChild, hFold, locate_natCast hi, childrenAt_eq hi]
  exact findNode_eq kind _ hNames

/-- The folder that is found is the first one of its name. -/
theorem findFolder_eq (hNames : t.FoldersText i) (hi : i < t.size) (name : String) :
    t.findFolder (.int i) name =
      .ok ((t.foldersIn i (Text.lower name)).head?.bind (t.nodes[·]?)) := by
  rw [findFolder, findChild_eq hi, foldersIn, List.head?_filter]
  exact fun j hj n hRow hKind => hNames j (mem_folderKids.mpr ⟨hj, n, hRow, hKind⟩) n hRow

/-- A folder that is there is not made again. -/
theorem Linked.ensureFolder_of_some (h : t.Linked) (hNames : t.FoldersText i) (hi : i < t.size)
    {f : Nat} (hf : (t.foldersIn i (Text.lower name)).head? = some f) :
    t.ensureFolder (.int i) name = .ok (t, f) := by
  have hKid := (mem_foldersIn.mp (List.mem_of_head? hf)).1
  obtain ⟨n, hn⟩ := exists_node (h.lt_size i f hKid)
  have hIndex : n.index = f := h.index_of_nodes hn
  rw [ensureFolder, findFolder_eq hNames hi, hf, Option.bind_some, hn]
  simp only [hIndex]

/-- Without a folder of the name a new one is made at the end. -/
theorem ensureFolder_of_none (hNames : t.FoldersText i) (hi : i < t.size)
    (hf : (t.foldersIn i (Text.lower name)).head? = none) :
    t.ensureFolder (.int i) name =
      .ok (t.add (.int i) { kind := .folder, name := .text name }, t.size) := by
  rw [ensureFolder, findFolder_eq hNames hi, hf]
  rfl

-- ---------------------------------------------------------------------------
-- New nodes
-- ---------------------------------------------------------------------------

/-- The children with a property are those from before and the new node, if the parent lists it and
it has the property. -/
theorem Linked.filter_kids_add (h : t.Linked) (parent : Value) (n : Node) (i : Nat)
    (P : Node → Bool) :
    ((t.add parent n).kids i).filter (fun j => ((t.add parent n).row j).any P) =
      (t.kids i).filter (fun j => (t.row j).any P) ++
        if t.host? parent = some i ∧ P (n.placed t.size parent) = true then [t.size] else [] := by
  rw [kids_add_host, List.filter_append]
  congr 1
  · refine List.filter_congr fun j hj => ?_
    rw [row_add_of_lt (h.lt_size i j hj)]
  · by_cases hHost : t.host? parent = some i
    · rw [if_pos hHost, List.filter_cons, row_add_size, Option.any_some, List.filter_nil]
      simp only [hHost, true_and]
    · rw [if_neg hHost, if_neg fun hBoth => hHost hBoth.1, List.filter_nil]

/-- A new node is a folder of a name if it is listed, a folder, and so named. -/
theorem Linked.foldersIn_add (h : t.Linked) (parent : Value) (n : Node) (i : Nat) (key : String) :
    (t.add parent n).foldersIn i key =
      t.foldersIn i key ++
        if t.host? parent = some i ∧ n.isNamed .folder key = true then [t.size] else [] :=
  h.filter_kids_add parent n i (Node.isNamed .folder key)

/-- A new node is a folder of its parent if it is listed and a folder. -/
theorem Linked.folderKids_add (h : t.Linked) (parent : Value) (n : Node) (i : Nat) :
    (t.add parent n).folderKids i =
      t.folderKids i ++ if t.host? parent = some i ∧ n.kind = .folder then [t.size] else [] := by
  refine (h.filter_kids_add parent n i (fun n => n.kind = .folder)).trans ?_
  simp only [decide_eq_true_eq]
  rfl

theorem isNamed_folder (name key : String) :
    Node.isNamed .folder key { kind := .folder, name := .text name } =
      decide (Text.lower name = key) := by
  simp [Node.isNamed, Node.foldedName]

-- ---------------------------------------------------------------------------
-- Well-formed trees
-- ---------------------------------------------------------------------------

/-- The folders in a node are those that name it as their parent. -/
theorem WellFormed.foldersNamed_eq (h : t.WellFormed) (i : Nat) (key : String) :
    t.foldersNamed i key = t.foldersIn i key := by
  rw [foldersNamed, foldersIn, h.kids, filter_select]
  exact select_congr fun _ _ _ => Bool.and_comm _ _

/-- In a well-formed tree the folder that is there is told by its parent. -/
theorem WellFormed.ensureFolder_of_some (h : t.WellFormed) (hNames : t.NamesText)
    (hi : i < t.size) {f : Nat} (hf : (t.foldersNamed i (Text.lower name)).head? = some f) :
    t.ensureFolder (.int i) name = .ok (t, f) := by
  rw [h.foldersNamed_eq] at hf
  exact h.branching.ensureFolder_of_some (hNames.foldersText i) hi hf

/-- In a well-formed tree a folder is made if none names the node as its parent. -/
theorem WellFormed.ensureFolder_of_none (h : t.WellFormed) (hNames : t.NamesText)
    (hi : i < t.size) (hf : (t.foldersNamed i (Text.lower name)).head? = none) :
    t.ensureFolder (.int i) name =
      .ok (t.add (.int i) { kind := .folder, name := .text name }, t.size) := by
  rw [h.foldersNamed_eq] at hf
  exact Tree.ensureFolder_of_none (hNames.foldersText i) hi hf

/-- A new folder is one of those that name its parent. -/
theorem foldersNamed_add (t : Tree) (p : Nat) (n : Node) (i : Nat) (key : String) :
    (t.add (.int p) n).foldersNamed i key =
      t.foldersNamed i key ++ if p = i ∧ n.isNamed .folder key = true then [t.size] else [] := by
  rw [foldersNamed, select_add, Node.parentIndex_placed_int, foldersNamed]
  have hNamed : (n.placed t.size (.int p)).isNamed .folder key = n.isNamed .folder key := rfl
  rw [hNamed]
  by_cases hp : p = i <;> simp [hp]

end BuildDigest.Tree
