import BuildDigest.Proofs.Tree.Arena
import BuildDigest.Text.Lower
import Mathlib.Data.List.Find
import Mathlib.Data.List.Sort

/-!
# What filing leaves alone

Properties and items are filed in folders below a project, and everything else
in the tree stays as it is: the nodes that are not filed, and the folders of all
other nodes.

* `Tree.Spares` — a tree grew, and only below given nodes something was filed.
* `Tree.Filed` — and nothing but filing was done.
* `Tree.owner` — the node in whose folders something is filed.
-/

namespace BuildDigest

/-- Whether nodes of a kind stand in the folders of a project. -/
def Node.Kind.isFiling : Kind → Bool
  | .folder | .nameValue | .item => true
  | .build | .project | .target | .task | .message | .commandLine => false

namespace Node

def foldedName (n : Node) : Option String :=
  match n.name with
  | .text s => some (Text.lower s)
  | _ => none

def isNamed (kind : Kind) (key : String) (n : Node) : Bool :=
  n.kind = kind && n.foldedName = some key

/-- What nothing that is filed later changes about a node. -/
def label (n : Node) : Kind × Value × Option Nat × Option Item :=
  (n.kind, n.name, n.parentIndex, n.item)

theorem label_eq_iff {n m : Node} :
    n.label = m.label ↔
      n.kind = m.kind ∧ n.name = m.name ∧ n.parentIndex = m.parentIndex ∧ n.item = m.item := by
  simp [label]

/-- Whether a node has a kind and a name shows in its label. -/
theorem isNamed_congr {n m : Node} (h : n.label = m.label) (kind : Kind) (key : String) :
    n.isNamed kind key = m.isNamed kind key := by
  obtain ⟨hKind, hName, _, _⟩ := label_eq_iff.mp h
  rw [isNamed, isNamed, foldedName, foldedName, hKind, hName]

end Node

namespace Tree

variable {t t' t'' : Tree} {S : Nat → Prop}

/-- All nodes have texts for names. -/
def NamesText (t : Tree) : Prop :=
  ∀ i n, t.row i = some n → ∃ s, n.name = .text s

/-- The folders of a node with a name in lower case. -/
def foldersNamed (t : Tree) (i : Nat) (key : String) : List Nat :=
  t.select fun n => n.parentIndex = some i && n.isNamed .folder key

/-- A folder of a node names it as its parent. -/
theorem mem_foldersNamed {i f : Nat} {key : String} :
    f ∈ t.foldersNamed i key ↔
      ∃ n, t.row f = some n ∧ n.parentIndex = some i ∧ n.isNamed .folder key = true := by
  simp [foldersNamed, mem_select]

/-- A tree after more was put into it: nodes keep their labels, and their values unless they hang
from a node in `S`, from which all new nodes hang. -/
structure Spares (S : Nat → Prop) (t t' : Tree) : Prop where
  size_le : t.size ≤ t'.size
  row : ∀ i n, t.row i = some n → ∃ n', t'.row i = some n' ∧ n'.label = n.label ∧
    ((∀ p, n.parentIndex = some p → ¬ S p) → n'.value = n.value)
  fresh : ∀ i n, t.size ≤ i → t'.row i = some n → ∃ p, n.parentIndex = some p ∧ S p

/-- A tree in which nothing was put spares all its nodes. -/
theorem Spares.refl (S : Nat → Prop) (t : Tree) : Spares S t t where
  size_le := Nat.le_refl _
  row i n hRow := ⟨n, hRow, rfl, fun _ => rfl⟩
  fresh i n hi hRow := by
    have := lt_size_of_row hRow
    omega

/-- What spares some nodes spares fewer. -/
theorem Spares.mono {S' : Nat → Prop} (h : Spares S t t') (hS : ∀ p, S p → S' p) :
    Spares S' t t' where
  size_le := h.size_le
  row i n hRow := by
    obtain ⟨n', hRow', hLabel, hValue⟩ := h.row i n hRow
    exact ⟨n', hRow', hLabel, fun hNot => hValue fun p hp hSp => hNot p hp (hS p hSp)⟩
  fresh i n hi hRow := by
    obtain ⟨p, hp, hSp⟩ := h.fresh i n hi hRow
    exact ⟨p, hp, hS p hSp⟩

/-- What comes later spares what came before, because labels and parents stay. -/
theorem Spares.trans (h : Spares S t t') (h' : Spares S t' t'') : Spares S t t'' where
  size_le := Nat.le_trans h.size_le h'.size_le
  row i n hRow := by
    obtain ⟨n', hRow', hLabel, hValue⟩ := h.row i n hRow
    obtain ⟨n'', hRow'', hLabel', hValue'⟩ := h'.row i n' hRow'
    refine ⟨n'', hRow'', hLabel'.trans hLabel, fun hNot => ?_⟩
    have hParent : n'.parentIndex = n.parentIndex := (Node.label_eq_iff.mp hLabel).2.2.1
    rw [hValue' (by rwa [hParent]), hValue hNot]
  fresh i n hi hRow := by
    by_cases hOld : i < t'.size
    · -- the node was new in the middle tree, and its label stayed
      obtain ⟨n', hRow'⟩ := exists_row hOld
      obtain ⟨p, hp, hSp⟩ := h.fresh i n' hi hRow'
      obtain ⟨n'', hRow'', hLabel, _⟩ := h'.row i n' hRow'
      rw [hRow] at hRow''
      obtain rfl := Option.some.inj hRow''
      exact ⟨p, (Node.label_eq_iff.mp hLabel).2.2.1.trans hp, hSp⟩
    · exact h'.fresh i n (Nat.le_of_not_lt hOld) hRow

/-- A new node spares all but its parent. -/
theorem spares_add (t : Tree) (p : Nat) (n : Node) : Spares (· = p) t (t.add (.int p) n) where
  size_le := by
    rw [size_add]
    omega
  row i m hRow :=
    ⟨m, by rw [row_add_of_lt (lt_size_of_row hRow), hRow], rfl, fun _ => rfl⟩
  fresh i m hi hRow := by
    rw [row_add] at hRow
    split at hRow
    · cases hRow
      exact ⟨p, rfl, rfl⟩
    · have := lt_size_of_row hRow
      omega

/-- A change that keeps name, place, item and value spares all nodes. -/
theorem spares_change {f : Node → Node} (hf : Node.Keeps f) (hItem : ∀ n, (f n).item = n.item)
    (hValue : ∀ n, (f n).value = n.value) (t : Tree) (i : Nat) :
    Spares (fun _ => False) t (t.change i f) where
  size_le := by rw [size_change]
  row j n hRow := by
    rw [row_change hf, hRow]
    split
    · refine ⟨f n, rfl, ?_, fun _ => hValue n⟩
      exact Node.label_eq_iff.mpr ⟨hf.kind n, hf.name n, hf.parentIndex n, hItem n⟩
    · exact ⟨n, rfl, rfl, fun _ => rfl⟩
  fresh j n hj hRow := by
    have := lt_size_of_row hRow
    rw [size_change] at this
    omega

/-- A value moves no node. -/
theorem keeps_setValue (v : Value) : Node.Keeps fun n => { n with value := v } where
  bare _ := rfl
  children _ := rfl
  index _ := rfl
  parent _ := rfl
  kind _ := rfl
  name _ := rfl

/-- A value that is changed spares all but the parent of its node. -/
theorem spares_setValue {j p : Nat} (hp : t.parent? j = some p) (v : Value) :
    Spares (· = p) t (t.change j fun n => { n with value := v }) where
  size_le := by rw [size_change]
  row i n hRow := by
    rw [row_change (keeps_setValue v), hRow]
    split
    · next hij =>
      refine ⟨{ n with value := v }, rfl, rfl, fun hNot => ?_⟩
      rw [← hij, parent?, hRow] at hp
      exact absurd rfl (hNot p hp)
    · exact ⟨n, rfl, rfl, fun _ => rfl⟩
  fresh i n hi hRow := by
    have := lt_size_of_row hRow
    rw [size_change] at this
    omega

/-- Nodes that are found by their labels, and not below `S`, are found again. -/
theorem Spares.select_eq (h : Spares S t t') {P : Node → Bool}
    (hLabel : ∀ n n', n'.label = n.label → P n' = P n)
    (hFresh : ∀ n p, n.parentIndex = some p → S p → P n = false) :
    t'.select P = t.select P := by
  refine (pairwise_select t' P).eq_of_mem_iff (pairwise_select t P) fun i => ?_
  rw [mem_select, mem_select]
  by_cases hi : i < t.size
  · obtain ⟨n, hRow⟩ := exists_row hi
    obtain ⟨n', hRow', hSame, _⟩ := h.row i n hRow
    rw [hRow, hRow']
    simp [hLabel n n' hSame]
  · rw [row_eq_none (Nat.le_of_not_lt hi)]
    constructor
    · rintro ⟨n, hRow, hP⟩
      obtain ⟨p, hp, hSp⟩ := h.fresh i n (Nat.le_of_not_lt hi) hRow
      rw [hFresh n p hp hSp] at hP
      cases hP
    · rintro ⟨n, hRow, _⟩
      cases hRow

theorem Spares.parent?_eq (h : Spares S t t') {i : Nat} (hi : i < t.size) :
    t'.parent? i = t.parent? i := by
  obtain ⟨n, hRow⟩ := exists_row hi
  obtain ⟨n', hRow', hLabel, _⟩ := h.row i n hRow
  rw [parent?, parent?, hRow, hRow']
  exact (Node.label_eq_iff.mp hLabel).2.2.1

/-- Nodes keep the way up to the root. -/
theorem Spares.trail_eq (h : Spares S t t') {i : Nat} (hi : i < t.size) :
    t'.trail i = t.trail i :=
  trail_congr fun _ hj => h.parent?_eq (by omega)

/-- Nodes that are spared keep their children, since a new child would name its parent. -/
theorem Spares.kids_eq (h : Spares S t t') (hWf : t.WellFormed) (hWf' : t'.WellFormed) {i : Nat}
    (hi : ¬ S i) : t'.kids i = t.kids i := by
  rw [hWf.kids, hWf'.kids]
  apply h.select_eq
  · intro n n' hLabel
    rw [(Node.label_eq_iff.mp hLabel).2.2.1]
  · intro n p hp hSp
    have hne : p ≠ i := fun hEq => hi (hEq ▸ hSp)
    simp [hp, hne]

-- ---------------------------------------------------------------------------
-- Filing only
-- ---------------------------------------------------------------------------

/-- A tree in which nothing was done but filing below nodes in `S`. -/
structure Filed (S : Nat → Prop) (t t' : Tree) : Prop where
  wellFormed : t'.WellFormed
  namesText : t'.NamesText
  spares : Spares S t t'
  logged : ∀ i n, t.row i = some n → n.kind.isFiling = false → t'.row i = some n
  filing : ∀ i n, t.size ≤ i → t'.row i = some n → n.kind.isFiling = true

/-- A tree in which nothing was done is filed. -/
theorem Filed.refl (hWf : t.WellFormed) (hNames : t.NamesText) (S : Nat → Prop) : Filed S t t where
  wellFormed := hWf
  namesText := hNames
  spares := Spares.refl S t
  logged _ _ hRow _ := hRow
  filing i n hi hRow := by
    have := lt_size_of_row hRow
    omega

theorem Filed.mono {S' : Nat → Prop} (h : Filed S t t') (hS : ∀ p, S p → S' p) :
    Filed S' t t' :=
  ⟨h.wellFormed, h.namesText, h.spares.mono hS, h.logged, h.filing⟩

/-- Filing after filing is filing. -/
theorem Filed.trans (h : Filed S t t') (h' : Filed S t' t'') : Filed S t t'' where
  wellFormed := h'.wellFormed
  namesText := h'.namesText
  spares := h.spares.trans h'.spares
  logged i n hRow hKind := h'.logged i n (h.logged i n hRow hKind) hKind
  filing i n hi hRow := by
    by_cases hOld : i < t'.size
    · obtain ⟨n', hRow'⟩ := exists_row hOld
      obtain ⟨n'', hRow'', hLabel, _⟩ := h'.spares.row i n' hRow'
      rw [hRow] at hRow''
      obtain rfl := Option.some.inj hRow''
      rw [(Node.label_eq_iff.mp hLabel).1]
      exact h.filing i n' hi hRow'
    · exact h'.filing i n (Nat.le_of_not_lt hOld) hRow

/-- A new node with a text for its name keeps all names texts. -/
theorem namesText_add (h : t.NamesText) (parent : Value) {n : Node}
    (hName : ∃ s, n.name = .text s) : (t.add parent n).NamesText := by
  intro i m hRow
  rw [row_add] at hRow
  split at hRow
  · cases hRow
    exact hName
  · exact h i m hRow

/-- A change that keeps names keeps them texts. -/
theorem namesText_change {f : Node → Node} (hf : Node.Keeps f) (h : t.NamesText) (i : Nat) :
    (t.change i f).NamesText := by
  intro j n hRow
  rw [row_change hf] at hRow
  split at hRow
  · obtain ⟨m, hm, rfl⟩ := Option.map_eq_some_iff.mp hRow
    rw [hf.name]
    exact h j m hm
  · exact h j n hRow

/-- A new node of a kind that is filed is filing. -/
theorem filed_add (hWf : t.WellFormed) (hNames : t.NamesText) {p : Nat} (hp : p < t.size)
    {n : Node} (hKind : n.kind.isFiling = true) (hName : ∃ s, n.name = .text s) :
    Filed (· = p) t (t.add (.int p) n) where
  wellFormed := wellFormed_add hWf hp n
  namesText := namesText_add hNames _ hName
  spares := spares_add t p n
  logged i m hRow _ := by rw [row_add_of_lt (lt_size_of_row hRow), hRow]
  filing i m hi hRow := by
    rw [row_add] at hRow
    split at hRow
    · cases hRow
      exact hKind
    · have := lt_size_of_row hRow
      omega

/-- A new value of a node that is filed is filing, and logged nodes do not have it. -/
theorem filed_setValue (hWf : t.WellFormed) (hNames : t.NamesText) {j p : Nat} {m : Node}
    (hRow : t.row j = some m) (hKind : m.kind.isFiling = true) (hp : t.parent? j = some p)
    (v : Value) : Filed (· = p) t (t.change j fun n => { n with value := v }) where
  wellFormed := wellFormed_change (keeps_setValue v) hWf j
  namesText := namesText_change (keeps_setValue v) hNames j
  spares := spares_setValue hp v
  logged i n hRow' hLogged := by
    rw [row_change (keeps_setValue v)]
    split
    · next hij =>
      rw [hij, hRow] at hRow'
      cases hRow'
      rw [hKind] at hLogged
      cases hLogged
    · exact hRow'
  filing i n hi hRow' := by
    have := lt_size_of_row hRow'
    rw [size_change] at this
    omega

-- ---------------------------------------------------------------------------
-- In whose folders a node stands
-- ---------------------------------------------------------------------------

/-- The innermost node at or above a node that is not filed. -/
def owner (t : Tree) (i : Nat) : Option Nat :=
  (i :: t.trail i).find? fun j => (t.row j).any fun n => !n.kind.isFiling

/-- Whether a node is new or stands in the folders of `i`. -/
def Belongs (t : Tree) (i p : Nat) : Prop :=
  t.size ≤ p ∨ t.owner p = some i

theorem owner_of_logged {i : Nat} {n : Node} (hRow : t.row i = some n)
    (hKind : n.kind.isFiling = false) : t.owner i = some i := by
  rw [owner, List.find?_cons, hRow, Option.any_some, hKind]
  rfl

theorem lt_size_of_owner {i p : Nat} (h : t.owner p = some i) : p < t.size := by
  by_contra hNot
  have hRow : t.row p = none := row_eq_none (Nat.le_of_not_lt hNot)
  have hTop : t.trail p = [] := trail_eq_nil (by rw [parent?, hRow, Option.bind_none])
  rw [owner, hTop, List.find?_cons, hRow] at h
  cases h

/-- What is filed belongs to whom its parent belongs to. -/
theorem WellFormed.owner_of_filing (h : t.WellFormed) {i p : Nat} {n : Node}
    (hRow : t.row i = some n) (hKind : n.kind.isFiling = true) (hp : t.parent? i = some p) :
    t.owner i = t.owner p := by
  rw [owner, List.find?_cons, hRow, Option.any_some, hKind, h.trail_eq_cons hp, owner]
  rfl

/-- Nodes keep their owner, by induction on the way up to it. -/
theorem Spares.owner_eq (h : Spares S t t') (hWf : t.WellFormed) {i : Nat} (hi : i < t.size) :
    t'.owner i = t.owner i := by
  rw [owner, owner, h.trail_eq hi]
  refine List.find?_congr fun j hj => ?_
  -- everything on the way up was there before, with the kind it has now
  have hj : j < t.size := by
    rcases List.mem_cons.mp hj with rfl | hj
    · exact hi
    · exact Nat.lt_trans (hWf.lt_of_mem_trail hj) hi
  obtain ⟨n, hRow⟩ := exists_row hj
  obtain ⟨n', hRow', hLabel, _⟩ := h.row j n hRow
  rw [hRow, hRow', Option.any_some, Option.any_some, (Node.label_eq_iff.mp hLabel).1]

/-- What belongs to a node later is new or belonged to it before. -/
theorem Spares.belongs (h : Spares S t t') (hWf : t.WellFormed) {i p : Nat}
    (hp : t'.Belongs i p) : t.Belongs i p := by
  by_cases hOld : p < t.size
  · rcases hp with hp | hp
    · have := h.size_le
      omega
    · rw [h.owner_eq hWf hOld] at hp
      exact Or.inr hp
  · exact Or.inl (Nat.le_of_not_lt hOld)

end Tree

end BuildDigest
