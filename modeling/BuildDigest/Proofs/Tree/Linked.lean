import BuildDigest.Proofs.Tree.Arena
import Mathlib.Logic.Relation

/-!
# Linked arenas

However a tree is made, its nodes stand at their indices, and every node is listed
by one node at most, in the order in which the nodes came. A parent that is not
there leaves a node unlisted, and a place counted from the end may even be that of
the new node itself; if no node is put below itself, children stand behind their
parents.

* `Tree.host?` — the node that comes to list a new one.
* `Tree.Made`, `Tree.Built` — the trees that are made at all, and those that are made by
  adding nodes alone, each below one that was there.
* `Tree.Linked`, `Tree.Branching` — the invariants; `Made.linked`, `Built.branching`.
* `Tree.Below` — what stands below a node.
-/

namespace BuildDigest.Tree

variable {t : Tree} {i c : Nat}

-- ---------------------------------------------------------------------------
-- Where a new node is listed
-- ---------------------------------------------------------------------------

theorem locate_congr {t t' : Tree} (h : t'.size = t.size) (place : Value) :
    t'.locate place = t.locate place := by
  cases place <;> simp only [locate, locateNumber, h]

/-- The node that lists a new one with a parent. The parent is looked up when the new node is
there, so a place counted from the end counts it. -/
def host? (t : Tree) (parent : Value) : Option Nat :=
  ((t.push .null { kind := .build }).locate parent).toOption

theorem host?_eq (t : Tree) (parent : Value) (n : Node) :
    t.host? parent = ((t.push parent n).locate parent).toOption := by
  rw [host?, locate_congr (t := t.push parent n) (by rw [size_push, size_push])]

theorem host?_int {p : Nat} (hp : p < t.size) : t.host? (.int p) = some p := by
  rw [host?, locate_natCast (by rw [size_push]; omega)]
  rfl

/-- A new node is listed by its host, if there is one, and lists none but possibly itself. -/
theorem kids_add_host (t : Tree) (parent : Value) (n : Node) (i : Nat) :
    (t.add parent n).kids i = t.kids i ++ if t.host? parent = some i then [t.size] else [] := by
  rw [host?_eq t parent n]
  cases hPlace : (t.push parent n).locate parent with
  | error fault =>
    have hAdd : t.add parent n = t.push parent n := by
      cases parent <;> simp only [add, addNode, hPlace]
    simp [hAdd, kids_push, Except.toOption]
  | ok p =>
    have hAdd : t.add parent n = (t.push parent n).attach p t.size := by
      cases parent with
      | null => cases hPlace
      | _ => simp only [add, addNode, hPlace]
    rw [hAdd, kids_attach (lt_size_of_locate hPlace), kids_push]
    simp [Except.toOption, eq_comm]

-- ---------------------------------------------------------------------------
-- How trees are made
-- ---------------------------------------------------------------------------

/-- A tree that is made somehow: nodes are added, below any parent, and nodes that are there change
without moving. -/
inductive Made : Tree → Prop
  | empty : Made .empty
  | add {t : Tree} (h : Made t) (parent : Value) (n : Node) : Made (t.add parent n)
  | change {t : Tree} (h : Made t) {f : Node → Node} (hf : Node.Keeps f) (i : Nat) :
    Made (t.change i f)

/-- A tree that is made by adding nodes, each below none or below one that was there. -/
inductive Built : Tree → Prop
  | empty : Built .empty
  | add {t : Tree} (h : Built t) {parent : Value} (n : Node)
    (hParent : ∀ p, t.host? parent = some p → p < t.size) : Built (t.add parent n)

/-- A tree that is built is made. -/
theorem Built.made (h : t.Built) : t.Made := by
  induction h with
  | empty => exact .empty
  | add _ n _ ih => exact ih.add _ n

-- ---------------------------------------------------------------------------
-- Linked trees
-- ---------------------------------------------------------------------------

/-- Nodes stand at their indices, and each is listed by one node at most, in order. -/
structure Linked (t : Tree) : Prop where
  index : ∀ i n, t.row i = some n → n.index = i
  sorted : ∀ i, (t.kids i).Pairwise (· < ·)
  lt_size : ∀ i, ∀ c ∈ t.kids i, c < t.size
  parent_unique : ∀ i j c, c ∈ t.kids i → c ∈ t.kids j → i = j

theorem kids_empty (i : Nat) : empty.kids i = [] := by
  simp [kids, empty]

/-- Without nodes there is nothing to link. -/
theorem linked_empty : Linked empty where
  index _ _ h := by simp [row, empty] at h
  sorted i := by
    rw [kids_empty]
    exact List.Pairwise.nil
  lt_size i c hc := by
    rw [kids_empty] at hc
    cases hc
  parent_unique i _ c hc := by
    rw [kids_empty] at hc
    cases hc

/-- A child is an old one or the new node. -/
theorem mem_kids_add {parent : Value} {n : Node} :
    c ∈ (t.add parent n).kids i ↔ c ∈ t.kids i ∨ t.host? parent = some i ∧ c = t.size := by
  rw [kids_add_host, List.mem_append]
  split <;> simp [*]

/-- A new node keeps a tree linked: it comes last among the children of one node at most. -/
theorem Linked.add (h : t.Linked) (parent : Value) (n : Node) : (t.add parent n).Linked where
  index i m hRow := by
    rw [row_add] at hRow
    split at hRow
    · cases hRow
      exact Eq.symm ‹_›
    · exact h.index i m hRow
  sorted i := by
    rw [kids_add_host]
    split
    · refine List.pairwise_append.mpr ⟨h.sorted i, List.pairwise_singleton _ _, ?_⟩
      intro c hc d hd
      rw [List.mem_singleton.mp hd]
      exact h.lt_size i c hc
    · rw [List.append_nil]
      exact h.sorted i
  lt_size i c hc := by
    rw [size_add]
    rcases mem_kids_add.mp hc with hc | ⟨_, rfl⟩
    · exact Nat.lt_succ_of_lt (h.lt_size i c hc)
    · exact Nat.lt_succ_self _
  parent_unique i j c hi hj := by
    -- a node that is new is in no list yet
    rcases mem_kids_add.mp hi with hi | ⟨hHost, rfl⟩ <;>
      rcases mem_kids_add.mp hj with hj | ⟨hHost', hc⟩
    · exact h.parent_unique i j c hi hj
    · exact absurd (h.lt_size i c hi) (by omega)
    · exact absurd (h.lt_size j _ hj) (by omega)
    · exact Option.some.inj (hHost.symm.trans hHost')

/-- A change that moves no node keeps a tree linked. -/
theorem Linked.change (h : t.Linked) {f : Node → Node} (hf : Node.Keeps f) (i : Nat) :
    (t.change i f).Linked where
  index j n hRow := by
    rw [row_change hf] at hRow
    split at hRow
    · obtain ⟨m, hm, rfl⟩ := Option.map_eq_some_iff.mp hRow
      rw [hf.index]
      exact h.index j m hm
    · exact h.index j n hRow
  sorted j := by
    rw [kids_change hf]
    exact h.sorted j
  lt_size j c hc := by
    rw [kids_change hf] at hc
    rw [size_change]
    exact h.lt_size j c hc
  parent_unique j k c hj hk := by
    rw [kids_change hf] at hj hk
    exact h.parent_unique j k c hj hk

/-- By induction on its making, every tree that is made is linked. -/
theorem Made.linked (h : t.Made) : t.Linked := by
  induction h with
  | empty => exact linked_empty
  | add _ parent n ih => exact ih.add parent n
  | change _ hf i ih => exact ih.change hf i

theorem Linked.index_of_nodes (h : t.Linked) {n : Node} (hn : t.nodes[i]? = some n) :
    n.index = i :=
  h.index i n.bare (row_eq_some_iff.mpr ⟨n, hn, rfl⟩)

theorem Linked.nodup_kids (h : t.Linked) (i : Nat) : (t.kids i).Nodup :=
  (h.sorted i).imp Nat.ne_of_lt

/-- A child that is found is one of the children, of the kind that is asked for. -/
theorem Linked.of_findChild (h : t.Linked) (hi : i < t.size) {kind : Node.Kind} {name : Value}
    {n : Node} (hFind : t.findChild (.int i) kind name = .ok (some n)) :
    n.index ∈ t.kids i ∧ t.nodes[n.index]? = some n ∧ n.kind = kind := by
  unfold findChild at hFind
  split at hFind
  · cases hFind
  · rw [locate_natCast hi] at hFind
    simp only [childrenAt_eq hi] at hFind
    obtain ⟨hMem, hKind⟩ := mem_of_findNode hFind
    obtain ⟨c, hc, hn⟩ := mem_nodesAt.mp hMem
    rw [h.index_of_nodes hn]
    exact ⟨hc, hn, hKind⟩

-- ---------------------------------------------------------------------------
-- Branching trees
-- ---------------------------------------------------------------------------

/-- A linked tree in which children stand behind their parents. -/
structure Branching (t : Tree) : Prop extends Linked t where
  rising : ∀ i, ∀ c ∈ t.kids i, i < c

/-- By induction on its building, every tree that is built has children behind their parents. -/
theorem Built.branching (h : t.Built) : t.Branching := by
  refine ⟨h.made.linked, ?_⟩
  induction h with
  | empty =>
    intro i c hc
    rw [kids_empty] at hc
    cases hc
  | add _ n hParent ih =>
    intro i c hc
    rcases mem_kids_add.mp hc with hc | ⟨hHost, rfl⟩
    · exact ih i c hc
    · exact hParent i hHost

/-- A well-formed tree is branching, since its children are told by their parents. -/
theorem WellFormed.branching (h : t.WellFormed) : t.Branching where
  index := h.index
  sorted := h.pairwise_kids
  lt_size _ _ hc := lt_size_of_parent? (h.mem_kids.mp hc)
  parent_unique _ _ _ hi hj :=
    Option.some.inj ((h.mem_kids.mp hi).symm.trans (h.mem_kids.mp hj))
  rising _ _ hc := h.lt_of_parent? (h.mem_kids.mp hc)

/-- A node is one of the children of another. -/
def IsKid (t : Tree) (i c : Nat) : Prop :=
  c ∈ t.kids i

/-- A node stands somewhere below another. -/
abbrev Below (t : Tree) : Nat → Nat → Prop :=
  Relation.TransGen t.IsKid

/-- What stands below a node stands behind it. -/
theorem Branching.le_of_reflTransGen (h : t.Branching) {d : Nat}
    (hd : Relation.ReflTransGen t.IsKid c d) : c ≤ d := by
  induction hd with
  | refl => exact Nat.le_refl c
  | tail _ hKid ih => exact Nat.le_trans ih (Nat.le_of_lt (h.rising _ _ hKid))

/-- Of two children of one node, nothing stands at or below both. -/
theorem Branching.eq_of_siblings (h : t.Branching) {c' d : Nat} (hc : c ∈ t.kids i)
    (hc' : c' ∈ t.kids i) (hd : Relation.ReflTransGen t.IsKid c d)
    (hd' : Relation.ReflTransGen t.IsKid c' d) : c = c' := by
  -- all above one of them are above their parent, which stands before the other
  have hApart : ∀ {a b : Nat}, a ∈ t.kids i → b ∈ t.kids i →
      Relation.ReflTransGen t.IsKid a b → a = b := by
    intro a b ha hb hab
    rcases hab.cases_tail with hEq | ⟨p, hap, hp⟩
    · exact hEq.symm
    · obtain rfl := h.parent_unique p i b hp hb
      have := h.rising p a ha
      have := h.le_of_reflTransGen hap
      omega
  have hUnique : Relator.RightUnique (Function.swap t.IsKid) :=
    fun d p q hp hq => h.parent_unique p q d hp hq
  rcases Relation.ReflTransGen.total_of_right_unique hUnique
    (Relation.reflTransGen_swap.mpr hd) (Relation.reflTransGen_swap.mpr hd') with hUp | hUp
  · exact (hApart hc' hc (Relation.reflTransGen_swap.mp hUp)).symm
  · exact hApart hc hc' (Relation.reflTransGen_swap.mp hUp)

end BuildDigest.Tree
