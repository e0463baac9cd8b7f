import BuildDigest.Proofs.Tree.Preorder
import BuildDigest.Tree.Folders

/-!
# What stands below a node

Whatever is asked of a node looks at the node and at what stands below it: its
properties and its items stand in folders below it, and a walk goes down from it. So
when a tree grows elsewhere, every answer about the node is the one it was.

* `Under` — the nodes at and below a node.
* `Kept` — every answer about a node is the same in two trees.
* `kept_of_under` — it is, when the nodes at and below it are.
-/

namespace BuildDigest.Tree

variable {t t' t'' : Tree} {i j c : Nat}

/-- A node is another one or stands below it. -/
def Under (t : Tree) (j c : Nat) : Prop :=
  c < t.size ∧ j ∈ c :: t.trail c

/-- Every answer about a node is the same in two trees. -/
structure Kept (t t' : Tree) (j : Nat) : Prop where
  node : t'.nodes[j]? = t.nodes[j]?
  properties : t'.properties (.int j) = t.properties (.int j)
  property : ∀ name, t'.property (.int j) name = t.property (.int j) name
  itemGroups : t'.itemGroups (.int j) = t.itemGroups (.int j)
  walk : ∀ stop, t'.walk (.int j) stop = t.walk (.int j) stop

/-- What is answered the same twice is answered the same. -/
theorem Kept.trans (h : Kept t t' j) (h' : Kept t' t'' j) : Kept t t'' j where
  node := h'.node.trans h.node
  properties := h'.properties.trans h.properties
  property name := (h'.property name).trans (h.property name)
  itemGroups := h'.itemGroups.trans h.itemGroups
  walk stop := (h'.walk stop).trans (h.walk stop)

theorem under_self (hj : j < t.size) : t.Under j j :=
  ⟨hj, List.mem_cons_self ..⟩

/-- A child of a node below another one stands below that one. -/
theorem WellFormed.under_kid (hWf : t.WellFormed) (hc : t.Under j c) {d : Nat}
    (hd : d ∈ t.kids c) : t.Under j d := by
  refine ⟨hWf.branching.lt_size _ _ hd, List.mem_cons_of_mem d ?_⟩
  rw [hWf.trail_eq_cons (hWf.mem_kids.mp hd)]
  exact hc.2

/-- What a walk yields below a node that stands below another one stands below that one. -/
theorem WellFormed.under_preorder (hWf : t.WellFormed) {stop : Node → Bool} (hj : t.Under i j)
    {d : Nat} (hd : d ∈ t.preorder stop j) : t.Under i d := by
  obtain ⟨js, hjs⟩ := hWf.trail_split (hWf.mem_trail_of_mem_preorder hd)
  have hSize := hWf.branching.lt_size_of_below (hWf.branching.below_of_mem_preorder hd)
  refine ⟨hSize, List.mem_cons_of_mem d ?_⟩
  rw [hjs]
  exact List.mem_append_right js hj.2

-- ---------------------------------------------------------------------------
-- Answers about a node
-- ---------------------------------------------------------------------------

section

variable (hSame : ∀ c, t.Under j c → t'.nodes[c]? = t.nodes[c]?)
include hSame

theorem kids_under (hc : t.Under j c) : t'.kids c = t.kids c := by
  rw [kids, kids, hSame c hc]

/-- The nodes below a kept one are the same in both trees. -/
theorem nodesAt_under {ds : List Nat} (hds : ∀ d ∈ ds, t.Under j d) :
    t'.nodesAt ds = t.nodesAt ds :=
  List.filterMap_congr fun d hd => hSame d (hds d hd)

variable (hWf : t.WellFormed)
include hWf

/-- The pre-order below a kept node is the same, since it only depends on the children there. -/
theorem preorder_under (hWf' : t'.WellFormed) (stop : Node → Bool) (hc : t.Under j c) :
    t'.preorder stop c = t.preorder stop c := by
  induction c using hWf.branching.descent_induction with
  | step c ih =>
    rw [hWf'.branching.preorder_eq, hWf.branching.preorder_eq, kids_under hSame hc]
    refine List.flatMap_congr fun d hd => ?_
    have hUnder := hWf.under_kid hc hd
    rw [branch, branch, stopsAt, stopsAt, hSame d hUnder, ih d hd hUnder]

variable (hSize : t.size ≤ t'.size)
include hSize

theorem childrenAt_under (hc : t.Under j c) : t'.childrenAt c = t.childrenAt c := by
  rw [childrenAt_eq (Nat.lt_of_lt_of_le hc.1 hSize), childrenAt_eq hc.1,
    kids_under hSame hc]
  exact nodesAt_under hSame fun d hd => hWf.under_kid hc hd

/-- The same child is found below a kept node. -/
theorem findChild_under (hc : t.Under j c) (kind : Node.Kind) (name : Value) :
    t'.findChild (.int c) kind name = t.findChild (.int c) kind name := by
  unfold findChild
  rw [locate_natCast hc.1, locate_natCast (Nat.lt_of_lt_of_le hc.1 hSize)]
  simp only [childrenAt_under hSame hWf hSize hc]

theorem findFolder_under (hc : t.Under j c) (name : String) :
    t'.findFolder (.int c) name = t.findFolder (.int c) name :=
  findChild_under hSame hWf hSize hc .folder (.text name)

/-- The same properties are read. -/
theorem properties_under (hj : t.Under j j) :
    t'.properties (.int j) = t.properties (.int j) := by
  unfold properties
  rw [findFolder_under hSame hWf hSize hj]
  cases hFind : t.findFolder (.int j) propertiesFolder with
  | error fault => rfl
  | ok found =>
    cases found with
    | none => rfl
    | some folder =>
      have hFolder := hWf.under_kid hj (hWf.branching.of_findChild hj.1 hFind).1
      simp only [childrenAt_under hSame hWf hSize hFolder]

/-- The same single property is read. -/
theorem property_under (hj : t.Under j j) (name : Value) :
    t'.property (.int j) name = t.property (.int j) name := by
  unfold property
  rw [findFolder_under hSame hWf hSize hj]
  cases hFind : t.findFolder (.int j) propertiesFolder with
  | error fault => rfl
  | ok found =>
    cases found with
    | none => rfl
    | some folder =>
      have hFolder := hWf.under_kid hj (hWf.branching.of_findChild hj.1 hFind).1
      simp only [findChild_under hSame hWf hSize hFolder]

/-- The same groups of items are read: their folders and the items in them stand below the node. -/
theorem itemGroups_under (hj : t.Under j j) :
    t'.itemGroups (.int j) = t.itemGroups (.int j) := by
  unfold itemGroups
  rw [findFolder_under hSame hWf hSize hj]
  cases hFind : t.findFolder (.int j) itemsFolder with
  | error fault => rfl
  | ok found =>
    cases found with
    | none => rfl
    | some folder =>
      have hFolder := hWf.under_kid hj (hWf.branching.of_findChild hj.1 hFind).1
      -- the items of a type are the children of a folder in the folder
      have hItems : ∀ n ∈ t.childrenAt folder.index,
          (n.name, (t'.nodesAt n.children).filterMap (·.item)) =
            (n.name, (t.nodesAt n.children).filterMap (·.item)) := by
        intro n hn
        rw [childrenAt_eq hFolder.1] at hn
        obtain ⟨g, hg, hn⟩ := mem_nodesAt.mp hn
        have hType := hWf.under_kid hFolder hg
        rw [nodesAt_under hSame fun d hd =>
          hWf.under_kid hType (by rwa [kids_of_nodes hn])]
      simp only [childrenAt_under hSame hWf hSize hFolder, List.map_congr_left hItems]

/-- The same walk is yielded. -/
theorem walk_under (hWf' : t'.WellFormed) (stop : Node → Bool) (hj : t.Under j j) :
    t'.walk (.int j) stop = t.walk (.int j) stop := by
  obtain ⟨n, hn⟩ := exists_node hj.1
  have hn' : t'.nodes[j]? = some n := (hSame j hj).trans hn
  have hSome : ¬ t.size = 0 := Nat.ne_of_gt (Nat.zero_lt_of_lt hj.1)
  have hSome' : ¬ t'.size = 0 := fun hZero => hSome (Nat.le_zero.mp (hZero ▸ hSize))
  rw [walk, walk, if_neg hSome, if_neg hSome', node_natCast hn, node_natCast hn', Except.map,
    Except.map, hWf.branching.below_eq hn, hWf'.branching.below_eq hn',
    preorder_under hSame hWf hWf' stop hj]
  rw [nodesAt_under hSame fun d hd => hWf.under_preorder hj hd]

/-- A tree in which nothing changed at or below a node answers about the node as before. -/
theorem kept_of_under (hWf' : t'.WellFormed) (hj : j < t.size) : Kept t t' j where
  node := hSame j (under_self hj)
  properties := properties_under hSame hWf hSize (under_self hj)
  property := property_under hSame hWf hSize (under_self hj)
  itemGroups := itemGroups_under hSame hWf hSize (under_self hj)
  walk stop := walk_under hSame hWf hSize hWf' stop (under_self hj)

end

end BuildDigest.Tree
