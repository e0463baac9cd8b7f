import BuildDigest.Tree.Basic
import Mathlib.Data.List.Basic

/-!
# Well-formed arenas

In a well-formed tree a node stands behind its parent, and the children of a node
are the nodes that name it as their parent, in the order in which they were
added. The arena is therefore known from its *rows*, the nodes without their
lists of children, and a new node is one more row at the end.

* `Tree.row`, `Tree.select` — a row, and the indices of the rows with a property.
* `Tree.trail` — the indices from the parent of a node up to the root.
* `Tree.WellFormed` — the invariant; adding a node (`wellFormed_add`) and changing
  one in place (`wellFormed_change`) keep it.
* `above_eq_nodesAt_trail`, `enclosing_eq_find?` — the searches upwards follow the
  trail and end.
-/

namespace BuildDigest

namespace Node

def bare (n : Node) : Node :=
  { n with children := [] }

def placed (n : Node) (index : Nat) (parent : Value) : Node :=
  { n with index, parent, children := [] }

def parentIndex (n : Node) : Option Nat :=
  match n.parent with
  | .int (.ofNat p) => some p
  | _ => none

@[simp] theorem parentIndex_placed_int (n : Node) (index p : Nat) :
    (n.placed index (.int p)).parentIndex = some p := rfl

@[simp] theorem parentIndex_placed_null (n : Node) (index : Nat) :
    (n.placed index .null).parentIndex = none := rfl

/-- A change of a node that leaves its kind, its name and its place in the tree alone. -/
structure Keeps (f : Node → Node) : Prop where
  bare : ∀ n, (f n).bare = f n.bare
  children : ∀ n, (f n).children = n.children
  index : ∀ n, (f n).index = n.index
  parent : ∀ n, (f n).parent = n.parent
  kind : ∀ n, (f n).kind = n.kind
  name : ∀ n, (f n).name = n.name

theorem Keeps.parentIndex {f : Node → Node} (hf : Keeps f) (n : Node) :
    (f n).parentIndex = n.parentIndex := by
  simp only [Node.parentIndex, hf.parent]

end Node

namespace Tree

variable {t : Tree}

/-- The node at an index, without its children. -/
def row (t : Tree) (i : Nat) : Option Node :=
  (t.nodes[i]?).map Node.bare

/-- The indices of the children of a node. -/
def kids (t : Tree) (i : Nat) : List Nat :=
  ((t.nodes[i]?).map (·.children)).getD []

/-- The indices of the nodes with a property, in order. -/
def select (t : Tree) (P : Node → Bool) : List Nat :=
  (List.range t.size).filter fun i => (t.row i).any P

def parent? (t : Tree) (i : Nat) : Option Nat :=
  (t.row i).bind Node.parentIndex

-- ---------------------------------------------------------------------------
-- Rows and children of a changed tree
-- ---------------------------------------------------------------------------

theorem row_eq_some_iff {i : Nat} {n : Node} :
    t.row i = some n ↔ ∃ m, t.nodes[i]? = some m ∧ m.bare = n := by
  simp [row]

theorem row_eq_none (h : t.size ≤ i) : t.row i = none := by
  have hNone : t.nodes[i]? = none := Array.getElem?_eq_none h
  rw [row, hNone, Option.map_none]

theorem lt_size_of_row {i : Nat} {n : Node} (h : t.row i = some n) : i < t.size := by
  by_contra hi
  rw [row_eq_none (Nat.le_of_not_lt hi)] at h
  cases h

theorem exists_node {i : Nat} (h : i < t.size) : ∃ n, t.nodes[i]? = some n :=
  ⟨_, Array.getElem?_eq_getElem h⟩

theorem exists_row {i : Nat} (h : i < t.size) : ∃ n, t.row i = some n := by
  obtain ⟨n, hn⟩ := exists_node h
  exact ⟨n.bare, by rw [row, hn, Option.map_some]⟩

theorem kids_of_nodes {i : Nat} {n : Node} (hn : t.nodes[i]? = some n) :
    t.kids i = n.children := by
  rw [kids, hn]
  rfl

/-- A node that is pushed stands at the end. -/
theorem row_push (t : Tree) (parent : Value) (n : Node) (i : Nat) :
    (t.push parent n).row i = if i = t.size then some (n.placed t.size parent) else t.row i := by
  unfold row push
  rw [Array.getElem?_push]
  by_cases h : i = t.size
  · rw [if_pos h, if_pos (show i = t.nodes.size from h)]
    rfl
  · rw [if_neg h, if_neg (show i ≠ t.nodes.size from h)]

/-- Pushing a node changes no children, and the new node is taken without any. -/
theorem kids_push (t : Tree) (parent : Value) (n : Node) (i : Nat) :
    (t.push parent n).kids i = t.kids i := by
  simp only [kids, push, Array.getElem?_push]
  split
  · next h =>
    rw [h, Array.getElem?_eq_none (Nat.le_refl _)]
    rfl
  · rfl

/-- A change that moves no node shows at its index only. -/
theorem row_change {f : Node → Node} (hf : Node.Keeps f) (t : Tree) (i j : Nat) :
    (t.change i f).row j = if j = i then (t.row j).map f else t.row j := by
  simp only [row, change, Array.getElem?_modify]
  by_cases h : i = j
  · rw [if_pos h, if_pos h.symm]
    cases t.nodes[j]? with
    | none => rfl
    | some n => exact congrArg some (hf.bare n)
  · rw [if_neg h, if_neg (Ne.symm h)]

/-- A change that moves no node changes no children. -/
theorem kids_change {f : Node → Node} (hf : Node.Keeps f) (t : Tree) (i j : Nat) :
    (t.change i f).kids j = t.kids j := by
  simp only [kids, change, Array.getElem?_modify]
  split
  · cases t.nodes[j]? with
    | none => rfl
    | some n => exact hf.children n
  · rfl

theorem row_attach (t : Tree) (i child j : Nat) : (t.attach i child).row j = t.row j := by
  simp only [row, attach, change, Array.getElem?_modify]
  split
  · cases t.nodes[j]? <;> rfl
  · rfl

/-- Attaching a child puts it behind the others of its parent. -/
theorem kids_attach {i : Nat} (h : i < t.size) (child j : Nat) :
    (t.attach i child).kids j = t.kids j ++ if j = i then [child] else [] := by
  simp only [kids, attach, change, Array.getElem?_modify]
  by_cases hj : i = j
  · subst hj
    have hSome : t.nodes[i]? = some t.nodes[i] := Array.getElem?_eq_getElem h
    rw [if_pos rfl, if_pos rfl, hSome]
    rfl
  · rw [if_neg hj, if_neg (Ne.symm hj), List.append_nil]

theorem add_null (t : Tree) (n : Node) : t.add .null n = t.push .null n := rfl

theorem add_int {p : Nat} (h : p < t.size) (n : Node) :
    t.add (.int p) n = (t.push (.int p) n).attach p t.size := by
  have hPlace : (t.push (.int p) n).locate (.int p) = .ok p :=
    locate_natCast (by rw [size_push]; omega)
  simp only [add, addNode, hPlace]

/-- A new node below a node that is there is its last child. -/
theorem kids_add {p : Nat} (hp : p < t.size) (n : Node) (j : Nat) :
    (t.add (.int p) n).kids j = t.kids j ++ if j = p then [t.size] else [] := by
  rw [add_int hp, kids_attach (by rw [size_push]; omega), kids_push]

theorem lt_size_of_mem_kids {i c : Nat} (h : c ∈ t.kids i) : i < t.size := by
  by_contra hNot
  rw [kids, Array.getElem?_eq_none (Nat.le_of_not_lt hNot)] at h
  cases h

theorem kids_size (t : Tree) : t.kids t.size = [] := by
  have hNone : t.nodes[t.size]? = none := Array.getElem?_eq_none (Nat.le_refl _)
  rw [kids, hNone]
  rfl

/-- A new node stands at the end, and the others stay as they are. -/
theorem row_add (t : Tree) (parent : Value) (n : Node) (i : Nat) :
    (t.add parent n).row i = if i = t.size then some (n.placed t.size parent) else t.row i := by
  simp only [add, addNode]
  split
  · exact row_push ..
  · split
    · exact (row_attach ..).trans (row_push ..)
    · exact row_push ..

theorem row_add_of_lt {i : Nat} (h : i < t.size) (parent : Value) (n : Node) :
    (t.add parent n).row i = t.row i := by
  rw [row_add, if_neg (Nat.ne_of_lt h)]

theorem row_add_size (t : Tree) (parent : Value) (n : Node) :
    (t.add parent n).row t.size = some (n.placed t.size parent) := by
  rw [row_add, if_pos rfl]

/-- A new node comes last among the nodes with a property, if it has it. -/
theorem select_add (t : Tree) (parent : Value) (n : Node) (P : Node → Bool) :
    (t.add parent n).select P =
      t.select P ++ if P (n.placed t.size parent) then [t.size] else [] := by
  simp only [select, size_add, List.range_succ, List.filter_append]
  congr 1
  · apply List.filter_congr
    intro i hi
    rw [row_add_of_lt (List.mem_range.mp hi)]
  · simp [row_add_size, List.filter_cons]

/-- A change that does not show in a property leaves the nodes with it the same. -/
theorem select_change {f : Node → Node} (hf : Node.Keeps f) {P : Node → Bool}
    (hP : ∀ n, P (f n) = P n) (t : Tree) (i : Nat) :
    (t.change i f).select P = t.select P := by
  simp only [select, size_change]
  apply List.filter_congr
  intro j _
  rw [row_change hf]
  split
  · cases t.row j with
    | none => rfl
    | some n => exact hP n
  · rfl

/-- A node is selected if it is there and has the property. -/
theorem mem_select {P : Node → Bool} {i : Nat} :
    i ∈ t.select P ↔ ∃ n, t.row i = some n ∧ P n = true := by
  simp only [select, List.mem_filter, List.mem_range, Option.any_eq_true]
  constructor
  · exact fun h => h.2
  · rintro ⟨n, hRow, hP⟩
    exact ⟨lt_size_of_row hRow, n, hRow, hP⟩

theorem lt_size_of_mem_select {P : Node → Bool} {i : Nat} (h : i ∈ t.select P) : i < t.size := by
  obtain ⟨n, hRow, _⟩ := mem_select.mp h
  exact lt_size_of_row hRow

theorem pairwise_select (t : Tree) (P : Node → Bool) : (t.select P).Pairwise (· < ·) :=
  List.pairwise_lt_range.filter _

/-- Selecting among the selected is selecting by both properties. -/
theorem filter_select (P Q : Node → Bool) :
    (t.select P).filter (fun d => (t.row d).any Q) = t.select fun n => Q n && P n := by
  rw [select, select, List.filter_filter]
  refine List.filter_congr fun d _ => ?_
  cases t.row d <;> rfl

/-- Properties that agree on all nodes select the same. -/
theorem select_congr {P Q : Node → Bool} (h : ∀ i n, t.row i = some n → P n = Q n) :
    t.select P = t.select Q := by
  refine List.filter_congr fun i _ => ?_
  cases hRow : t.row i with
  | none => rfl
  | some n => exact h i n hRow

theorem parent?_add_of_lt {i : Nat} (h : i < t.size) (parent : Value) (n : Node) :
    (t.add parent n).parent? i = t.parent? i := by
  rw [parent?, row_add_of_lt h, parent?]

/-- A change that moves no node keeps parents. -/
theorem parent?_change {f : Node → Node} (hf : Node.Keeps f) (t : Tree) (i j : Nat) :
    (t.change i f).parent? j = t.parent? j := by
  rw [parent?, row_change hf, parent?]
  split
  · cases t.row j with
    | none => rfl
    | some n => exact hf.parentIndex n
  · rfl

-- ---------------------------------------------------------------------------
-- Well-formed trees
-- ---------------------------------------------------------------------------

/-- Nodes stand at their indices and behind their parents, and the children of a node are those
that have it as their parent, in order. -/
structure WellFormed (t : Tree) : Prop where
  index : ∀ i n, t.row i = some n → n.index = i
  parent : ∀ i n, t.row i = some n → n.parent = .null ∨ ∃ p < i, n.parent = .int p
  kids : ∀ i, t.kids i = t.select (·.parentIndex = some i)

theorem wellFormed_empty : WellFormed empty where
  index _ _ h := by simp [row, empty] at h
  parent _ _ h := by simp [row, empty] at h
  kids _ := by simp [Tree.kids, select, empty, size]

theorem WellFormed.index_of_nodes (h : t.WellFormed) {i : Nat} {n : Node}
    (hn : t.nodes[i]? = some n) : n.index = i :=
  h.index i n.bare (row_eq_some_iff.mpr ⟨n, hn, rfl⟩)

/-- Parents stand before their children. -/
theorem WellFormed.lt_of_parent? (h : t.WellFormed) {i p : Nat} (hp : t.parent? i = some p) :
    p < i := by
  rw [parent?, Option.bind_eq_some_iff] at hp
  obtain ⟨n, hRow, hIndex⟩ := hp
  rcases h.parent i n hRow with hNull | ⟨q, hq, hInt⟩
  · simp [Node.parentIndex, hNull] at hIndex
  · have hqp : q = p := by simpa [Node.parentIndex, hInt] using hIndex
    omega

theorem lt_size_of_parent? {i p : Nat} (hp : t.parent? i = some p) : i < t.size := by
  rw [parent?, Option.bind_eq_some_iff] at hp
  obtain ⟨n, hRow, _⟩ := hp
  exact lt_size_of_row hRow

theorem mem_select_parent {i c : Nat} :
    c ∈ t.select (·.parentIndex = some i) ↔ t.parent? c = some i := by
  rw [mem_select, parent?, Option.bind_eq_some_iff]
  simp only [decide_eq_true_eq]

/-- The children of a node are those that have it as their parent. -/
theorem WellFormed.mem_kids (h : t.WellFormed) {i c : Nat} :
    c ∈ t.kids i ↔ t.parent? c = some i := by
  rw [h.kids, mem_select_parent]

theorem WellFormed.pairwise_kids (h : t.WellFormed) (i : Nat) : (t.kids i).Pairwise (· < ·) := by
  rw [h.kids]
  exact pairwise_select t _

/-- A root may be added to any well-formed tree. -/
theorem WellFormed.push_root (h : t.WellFormed) (n : Node) : (t.add .null n).WellFormed where
  index i m hRow := by
    rw [row_add] at hRow
    split at hRow
    · cases hRow
      exact Eq.symm ‹_›
    · exact h.index i m hRow
  parent i m hRow := by
    rw [row_add] at hRow
    split at hRow
    · cases hRow
      exact Or.inl rfl
    · exact h.parent i m hRow
  kids i := by
    rw [select_add, add_null, kids_push, h.kids]
    simp

/-- Adding a node below one that is there keeps a tree well formed. -/
theorem wellFormed_add (h : t.WellFormed) {p : Nat} (hp : p < t.size) (n : Node) :
    (t.add (.int p) n).WellFormed where
  index i m hRow := by
    rw [row_add] at hRow
    split at hRow
    · cases hRow
      exact Eq.symm ‹_›
    · exact h.index i m hRow
  parent i m hRow := by
    rw [row_add] at hRow
    split at hRow
    · cases hRow
      exact Or.inr ⟨p, by omega, rfl⟩
    · exact h.parent i m hRow
  kids i := by
    rw [select_add, kids_add hp, h.kids, Node.parentIndex_placed_int]
    simp only [Option.some.injEq, decide_eq_true_eq, eq_comm (a := p)]

/-- A change that moves no node keeps a tree well formed. -/
theorem wellFormed_change {f : Node → Node} (hf : Node.Keeps f) (h : t.WellFormed) (i : Nat) :
    (t.change i f).WellFormed where
  index j n hRow := by
    rw [row_change hf] at hRow
    split at hRow
    · obtain ⟨m, hm, rfl⟩ := Option.map_eq_some_iff.mp hRow
      rw [hf.index]
      exact h.index j m hm
    · exact h.index j n hRow
  parent j n hRow := by
    rw [row_change hf] at hRow
    split at hRow
    · obtain ⟨m, hm, rfl⟩ := Option.map_eq_some_iff.mp hRow
      rw [hf.parent]
      exact h.parent j m hm
    · exact h.parent j n hRow
  kids j := by
    rw [kids_change hf, h.kids, select_change hf fun n => by rw [hf.parentIndex]]

-- ---------------------------------------------------------------------------
-- The way up
-- ---------------------------------------------------------------------------

/-- The indices from the parent of a node up to the root. -/
def trail (t : Tree) (i : Nat) : List Nat :=
  match t.parent? i with
  | none => []
  | some p => if _h : p < i then p :: t.trail p else []
termination_by i

theorem trail_eq_nil {i : Nat} (hp : t.parent? i = none) : t.trail i = [] := by
  rw [trail, hp]

theorem trail_eq_cons {i p : Nat} (hp : t.parent? i = some p) (hlt : p < i) :
    t.trail i = p :: t.trail p := by
  rw [trail, hp]
  exact dif_pos hlt

/-- The way up from a node starts with its parent. -/
theorem WellFormed.trail_eq_cons (h : t.WellFormed) {i p : Nat} (hp : t.parent? i = some p) :
    t.trail i = p :: t.trail p :=
  Tree.trail_eq_cons hp (h.lt_of_parent? hp)

/-- The way up from a node depends on the parents at and before it. -/
theorem trail_congr {t' : Tree} {i : Nat} (h : ∀ j ≤ i, t'.parent? j = t.parent? j) :
    t'.trail i = t.trail i := by
  induction i using Nat.strongRecOn with
  | ind i ih =>
    rw [trail, trail, h i (Nat.le_refl i)]
    split
    · rfl
    · next p _ =>
      split
      · next hlt => rw [ih p hlt fun j hj => h j (by omega)]
      · rfl

theorem trail_add_of_lt {i : Nat} (h : i < t.size) (parent : Value) (n : Node) :
    (t.add parent n).trail i = t.trail i :=
  trail_congr fun _ hj => parent?_add_of_lt (by omega) parent n

theorem trail_change {f : Node → Node} (hf : Node.Keeps f) (t : Tree) (i j : Nat) :
    (t.change i f).trail j = t.trail j :=
  trail_congr fun k _ => parent?_change hf t i k

theorem parent?_add_size (t : Tree) (p : Nat) (n : Node) :
    (t.add (.int p) n).parent? t.size = some p := by
  rw [parent?, row_add_size]
  rfl

theorem trail_add_size {p : Nat} (hp : p < t.size) (n : Node) :
    (t.add (.int p) n).trail t.size = p :: t.trail p := by
  rw [Tree.trail_eq_cons (parent?_add_size t p n) hp, trail_add_of_lt hp]

/-- Induction along the way up: a node without a parent, or one below its parent. -/
theorem WellFormed.trail_induction (h : t.WellFormed) {motive : Nat → Prop}
    (top : ∀ i, t.parent? i = none → motive i)
    (below : ∀ i p, t.parent? i = some p → motive p → motive i) (i : Nat) : motive i := by
  -- a parent stands before its children, so going up ends
  induction i using Nat.strongRecOn with
  | ind i ih =>
    cases hp : t.parent? i with
    | none => exact top i hp
    | some p => exact below i p hp (ih p (h.lt_of_parent? hp))

/-- All nodes on the way up stand before the node. -/
theorem WellFormed.lt_of_mem_trail (h : t.WellFormed) {i j : Nat} (hj : j ∈ t.trail i) :
    j < i := by
  induction i using h.trail_induction with
  | top i hp =>
    rw [trail_eq_nil hp] at hj
    cases hj
  | below i p hp ih =>
    have hlt := h.lt_of_parent? hp
    rw [h.trail_eq_cons hp, List.mem_cons] at hj
    rcases hj with rfl | hj
    · exact hlt
    · exact Nat.lt_trans (ih hj) hlt

/-- From a node on the way up, the way goes on as it does from that node. -/
theorem WellFormed.trail_split (h : t.WellFormed) {i j : Nat} (hj : j ∈ t.trail i) :
    ∃ js, t.trail i = js ++ j :: t.trail j := by
  induction i using h.trail_induction with
  | top i hp =>
    rw [trail_eq_nil hp] at hj
    cases hj
  | below i p hp ih =>
    rw [h.trail_eq_cons hp, List.mem_cons] at hj
    rw [h.trail_eq_cons hp]
    rcases hj with rfl | hj
    · exact ⟨[], rfl⟩
    · obtain ⟨js, hjs⟩ := ih hj
      exact ⟨p :: js, by rw [hjs, List.cons_append]⟩

/-- Of two nodes on one way up, one is above the other. -/
theorem WellFormed.trail_linear (h : t.WellFormed) {i j k : Nat} (hj : j ∈ i :: t.trail i)
    (hk : k ∈ i :: t.trail i) : j = k ∨ j ∈ t.trail k ∨ k ∈ t.trail j := by
  induction i using h.trail_induction with
  | top i hp =>
    rw [trail_eq_nil hp, List.mem_singleton] at hj hk
    exact Or.inl (hj.trans hk.symm)
  | below i p hp ih =>
    rw [List.mem_cons] at hj hk
    rw [h.trail_eq_cons hp] at hj hk
    rcases hj with rfl | hj
    · rcases hk with rfl | hk
      · exact Or.inl rfl
      · exact Or.inr (Or.inr (by rwa [h.trail_eq_cons hp]))
    · rcases hk with rfl | hk
      · exact Or.inr (Or.inl (by rwa [h.trail_eq_cons hp]))
      · exact ih hj hk

/-- On the way up there is one child at most of each node. -/
theorem WellFormed.eq_of_siblings (h : t.WellFormed) {i j k p : Nat} (hj : j ∈ i :: t.trail i)
    (hk : k ∈ i :: t.trail i) (hjp : t.parent? j = some p) (hkp : t.parent? k = some p) :
    j = k := by
  -- all above one of them are above their parent, which stands before the other
  have hAbove : ∀ {a b : Nat}, t.parent? a = some p → t.parent? b = some p → b ∉ t.trail a := by
    intro a b ha hb hMem
    have hpb := h.lt_of_parent? hb
    rw [h.trail_eq_cons ha, List.mem_cons] at hMem
    rcases hMem with rfl | hMem
    · omega
    · have := h.lt_of_mem_trail hMem
      omega
  rcases h.trail_linear hj hk with hEq | hMem | hMem
  · exact hEq
  · exact absurd hMem (hAbove hkp hjp)
  · exact absurd hMem (hAbove hjp hkp)

-- ---------------------------------------------------------------------------
-- Searches upwards
-- ---------------------------------------------------------------------------

theorem nodesAt_cons_of_nodes {i : Nat} {n : Node} (hn : t.nodes[i]? = some n) (is : List Nat) :
    t.nodesAt (i :: is) = n :: t.nodesAt is := by
  rw [nodesAt, List.filterMap_cons, hn, nodesAt]

theorem parent?_eq_of_nodes {i : Nat} {n : Node} (hn : t.nodes[i]? = some n) :
    t.parent? i = n.parentIndex := by
  rw [parent?, row, hn]
  rfl

/-- Where a node of a well-formed tree hangs. -/
theorem WellFormed.parent_cases (h : t.WellFormed) {i : Nat} {n : Node}
    (hn : t.nodes[i]? = some n) :
    (n.parent = .null ∧ t.parent? i = none) ∨
      ∃ p < i, n.parent = .int p ∧ t.parent? i = some p := by
  rw [parent?_eq_of_nodes hn]
  rcases h.parent i n.bare (row_eq_some_iff.mpr ⟨n, hn, rfl⟩) with hNull | ⟨p, hp, hInt⟩
  · have hNull' : n.parent = .null := hNull
    exact Or.inl ⟨hNull', by simp [Node.parentIndex, hNull']⟩
  · have hInt' : n.parent = .int p := hInt
    exact Or.inr ⟨p, hp, hInt', by simp [Node.parentIndex, hInt']⟩

theorem climb_null (t : Tree) (fuel : Nat) : t.climb fuel .null = ([], none) := by
  cases fuel <;> rfl

/-- With as many steps as there are nodes up to the start, the way up ends at the root. -/
theorem WellFormed.climb_eq (h : t.WellFormed) {fuel p : Nat} (hp : p < t.size)
    (hFuel : p < fuel) : t.climb fuel (.int p) = (t.nodesAt (p :: t.trail p), none) := by
  induction fuel generalizing p with
  | zero => omega
  | succ fuel ih =>
    obtain ⟨n, hn⟩ := exists_node hp
    simp only [climb, node_natCast hn, nodesAt_cons_of_nodes hn]
    rcases h.parent_cases hn with ⟨hNull, hTop⟩ | ⟨q, hq, hInt, hBelow⟩
    · rw [hNull, climb_null, trail_eq_nil hTop]
      rfl
    · rw [hInt, ih (by omega) (by omega), h.trail_eq_cons hBelow]

/-- The nodes above a node are those on its trail, and the way up is without fault. -/
theorem WellFormed.above_eq_nodesAt_trail (h : t.WellFormed) {i : Nat} {n : Node}
    (hn : t.nodes[i]? = some n) : t.above n = (t.nodesAt (t.trail i), none) := by
  have hi : i < t.size := (Array.getElem?_eq_some_iff.mp hn).1
  rw [above]
  rcases h.parent_cases hn with ⟨hNull, hTop⟩ | ⟨p, hp, hInt, hBelow⟩
  · rw [hNull, climb_null, trail_eq_nil hTop]
    rfl
  · rw [hInt, h.climb_eq (by omega) (by omega), h.trail_eq_cons hBelow]

/-- The search for an enclosing node finds the first on the way up, the start included. -/
theorem WellFormed.enclosing_eq_find? (h : t.WellFormed) {i : Nat} (hi : i < t.size)
    (kind : Node.Kind) :
    t.enclosing (.int i) kind = .ok ((t.nodesAt (i :: t.trail i)).find? (·.kind = kind)) := by
  obtain ⟨n, hn⟩ := exists_node hi
  simp only [enclosing, node_natCast hn, nodesAt_cons_of_nodes hn, h.above_eq_nodesAt_trail hn,
    List.find?_cons]
  by_cases hKind : n.kind = kind
  · simp [hKind]
  · simp only [hKind, decide_false, if_false]
    cases (t.nodesAt (t.trail i)).find? (·.kind = kind) <;> rfl

-- ---------------------------------------------------------------------------
-- Searches among children
-- ---------------------------------------------------------------------------

theorem childrenAt_eq {i : Nat} (hi : i < t.size) : t.childrenAt i = t.nodesAt (t.kids i) := by
  obtain ⟨n, hn⟩ := exists_node hi
  rw [childrenAt, hn, kids_of_nodes hn]

/-- The nodes at some indices are those that stand there; indices without a node count nothing. -/
theorem mem_nodesAt {is : List Nat} {n : Node} :
    n ∈ t.nodesAt is ↔ ∃ i ∈ is, t.nodes[i]? = some n :=
  List.mem_filterMap

/-- A node that is found is one of those that are searched, of the kind that is asked for. -/
theorem mem_of_findNode {kind : Node.Kind} {folded : Option String} {ns : List Node} {n : Node}
    (h : findNode kind folded ns = .ok (some n)) : n ∈ ns ∧ n.kind = kind := by
  induction ns with
  | nil => cases h
  | cons m rest ih =>
    have hRest (h : findNode kind folded rest = .ok (some n)) : n ∈ m :: rest ∧ n.kind = kind :=
      ⟨List.mem_cons_of_mem m (ih h).1, (ih h).2⟩
    unfold findNode at h
    split at h
    · exact hRest h
    · next hKind =>
      split at h
      · cases h
        exact ⟨List.mem_cons_self .., not_not.mp hKind⟩
      · split at h
        · cases h
        · split at h
          · cases h
            exact ⟨List.mem_cons_self .., not_not.mp hKind⟩
          · exact hRest h

end Tree

end BuildDigest
