import BuildDigest.Proofs.Assembly.Standing
import BuildDigest.Proofs.Folders.Puts

/-!
# Branches of a build

Below a node that was logged stand the nodes that were logged inside it, and its
folders. Nothing else does, because properties and items hang from folders. So the
children that are no folders are what was logged, and filing leaves them alone.

* `Tree.branches` — the children of a node that are no folders.
* `Tree.Foldered` — properties and items hang from folders; `Puts.foldered` — reports keep it.
* `Foldered.branches_eq` — the branches of a logged node are logged.
* `Filed.branches_eq` — filing leaves them alone.
-/

namespace BuildDigest

/-- Whether a node was logged below a node. -/
def Node.isLoggedBelow (p : Nat) (n : Node) : Bool :=
  n.isLogged && n.parentIndex = some p

namespace Tree

variable {t t' : Tree} {i p f : Nat}

/-- The children of a node that are no folders, in order. -/
def branches (t : Tree) (p : Nat) : List Nat :=
  (t.kids p).filter fun j => (t.row j).any (·.kind ≠ .folder)

def FolderAt (t : Tree) (f : Nat) : Prop :=
  ∃ n, t.row f = some n ∧ n.kind = .folder

/-- What is filed and no folder hangs from a folder. -/
def Foldered (t : Tree) : Prop :=
  ∀ i n, t.row i = some n → n.kind.isFiling = true → n.kind ≠ .folder →
    ∃ f, n.parentIndex = some f ∧ t.FolderAt f

-- ---------------------------------------------------------------------------
-- Single changes
-- ---------------------------------------------------------------------------

theorem FolderAt.add (h : t.FolderAt f) (parent : Value) (n : Node) :
    (t.add parent n).FolderAt f := by
  obtain ⟨m, hRow, hKind⟩ := h
  exact ⟨m, by rw [row_add_of_lt (lt_size_of_row hRow), hRow], hKind⟩

theorem FolderAt.change {g : Node → Node} (hg : Node.Keeps g) (h : t.FolderAt f) (i : Nat) :
    (t.change i g).FolderAt f := by
  obtain ⟨m, hRow, hKind⟩ := h
  rw [FolderAt, row_change hg, hRow]
  split
  · exact ⟨g m, rfl, (hg.kind m).trans hKind⟩
  · exact ⟨m, rfl, hKind⟩

/-- A property or an item comes below a folder, and then all of them stand below folders still. -/
theorem Foldered.add (h : t.Foldered) {n : Node}
    (hn : n.kind.isFiling = true → n.kind ≠ .folder → t.FolderAt p) :
    (t.add (.int p) n).Foldered := by
  intro i m hRow hFiling hFolder
  rw [row_add] at hRow
  split at hRow
  · cases hRow
    exact ⟨p, rfl, (hn hFiling hFolder).add _ n⟩
  · obtain ⟨f, hParent, hf⟩ := h i m hRow hFiling hFolder
    exact ⟨f, hParent, hf.add _ n⟩

/-- Changes in place leave properties and items below folders. -/
theorem Foldered.change {g : Node → Node} (hg : Node.Keeps g) (h : t.Foldered) (i : Nat) :
    (t.change i g).Foldered := by
  intro j m hRow hFiling hFolder
  rw [row_change hg] at hRow
  split at hRow
  · obtain ⟨n, hn, rfl⟩ := Option.map_eq_some_iff.mp hRow
    rw [hg.kind] at hFiling hFolder
    obtain ⟨f, hParent, hf⟩ := h j n hn hFiling hFolder
    exact ⟨f, (hg.parentIndex n).trans hParent, hf.change hg i⟩
  · obtain ⟨f, hParent, hf⟩ := h j m hRow hFiling hFolder
    exact ⟨f, hParent, hf.change hg i⟩

/-- The root alone has nothing filed. -/
theorem foldered_root {n : Node} (hKind : n.kind = .build) : (empty.add .null n).Foldered := by
  intro i m hRow hFiling
  rw [row_add] at hRow
  split at hRow
  · cases hRow
    have hBuild : n.kind.isFiling = true := hFiling
    rw [hKind] at hBuild
    cases hBuild
  · simp [row, empty] at hRow

-- ---------------------------------------------------------------------------
-- Reports
-- ---------------------------------------------------------------------------

/-- Whatever is put into a tree, properties and items come into folders. -/
theorem Puts.foldered {S : Nat → Prop} (h : Puts S t t') (hFoldered : t.Foldered) :
    t'.Foldered := by
  induction h with
  | refl => exact hFoldered
  | tail _ hPut ih =>
    obtain ⟨p, _, hPut⟩ := hPut
    cases hPut with
    | node _ _ _ hPlace =>
      refine ih.add fun _ hFolder => isFolderAt_eq_true.mp ?_
      exact hPlace.resolve_left fun hNew => hFolder hNew.1
    | value _ _ _ v => exact ih.change (keeps_setValue v) _

-- ---------------------------------------------------------------------------
-- Branches
-- ---------------------------------------------------------------------------

/-- The branches of a node that was logged are the nodes that were logged below it. -/
theorem Foldered.branches_eq (h : t.Foldered) (hWf : t.WellFormed)
    (hp : p ∈ t.select Node.isLogged) : t.branches p = t.select (Node.isLoggedBelow p) := by
  obtain ⟨r, hRow, hLogged⟩ := mem_select.mp hp
  rw [branches, hWf.kids, filter_select]
  refine select_congr fun i n hn => ?_
  rw [Node.isLoggedBelow, Node.isLogged]
  by_cases hParent : n.parentIndex = some p
  · cases hFiling : n.kind.isFiling with
    | false =>
      have hFolder : n.kind ≠ .folder := by
        intro hKind
        rw [hKind] at hFiling
        cases hFiling
      simp [hParent, hFolder]
    | true =>
      -- what is filed below the node is a folder, because the node is none
      have hFolder : n.kind = .folder := by
        by_contra hKind
        obtain ⟨f, hf, m, hm, hFolder⟩ := h i n hn hFiling hKind
        rw [hParent] at hf
        obtain rfl := Option.some.inj hf
        rw [hRow] at hm
        obtain rfl := Option.some.inj hm
        rw [Node.isLogged, hFolder] at hLogged
        cases hLogged
      simp [hFolder]
  · simp [hParent]

/-- Filing leaves the branches of all logged nodes alone. -/
theorem Filed.branches_eq {S : Nat → Prop} (hFiled : Filed S t t') (hWf : t.WellFormed)
    (h : t.Foldered) (h' : t'.Foldered) (hp : p ∈ t.select Node.isLogged) :
    t'.branches p = t.branches p := by
  have hp' : p ∈ t'.select Node.isLogged := by rwa [hFiled.select_isLogged]
  rw [h'.branches_eq hFiled.wellFormed hp', h.branches_eq hWf hp]
  refine hFiled.select_eq ?_ ?_
  · intro n n' hLabel
    rw [Node.isLoggedBelow, Node.isLoggedBelow, isLogged_congr n n' hLabel,
      (Node.label_eq_iff.mp hLabel).2.2.1]
  · intro n hn
    rw [Node.isLoggedBelow, Bool.and_eq_true] at hn
    simpa [Node.isLogged] using hn.1

/-- Changes in place leave the branches of every node. -/
theorem branches_change {g : Node → Node} (hg : Node.Keeps g) (t : Tree) (i p : Nat) :
    (t.change i g).branches p = t.branches p := by
  rw [branches, kids_change hg]
  refine List.filter_congr fun j _ => ?_
  rw [row_change hg]
  split
  · cases t.row j with
    | none => rfl
    | some n => simp [hg.kind]
  · rfl

theorem branches_add_size (hp : p < t.size) (n : Node) :
    (t.add (.int p) n).branches t.size = [] := by
  rw [branches, kids_add hp, kids_size, if_neg (Nat.ne_of_gt hp)]
  rfl

/-- A node that is logged is the last branch of the node below which it is logged. -/
theorem WellFormed.branches_add (hWf : t.WellFormed) (hp : p < t.size) {n : Node}
    (hLogged : n.isLogged = true) (i : Nat) :
    (t.add (.int p) n).branches i = t.branches i ++ if i = p then [t.size] else [] := by
  have hOld : (t.kids i).filter (fun j => ((t.add (.int p) n).row j).any (·.kind ≠ .folder)) =
      t.branches i := by
    refine List.filter_congr fun j hj => ?_
    rw [row_add_of_lt (lt_size_of_parent? (hWf.mem_kids.mp hj))]
  have hKind : n.kind ≠ .folder := by
    intro hFolder
    rw [Node.isLogged, hFolder] at hLogged
    cases hLogged
  have hNew : ((t.add (.int p) n).row t.size).any (·.kind ≠ .folder) = true := by
    rw [row_add_size]
    exact decide_eq_true hKind
  rw [branches, kids_add hp, List.filter_append, hOld]
  split
  · rw [List.filter_singleton, hNew]
    rfl
  · rfl

end Tree

end BuildDigest
