import BuildDigest.Proofs.Tree.Preorder

/-!
# What walks yield

However a tree is built by adding nodes below those that are there, a walk through it
ends and yields the pre-order below the node where it starts: without a stop all that
stands below, each node once. A visit meets the root and what stands below it in the
same order.

* `Linked.map_index_nodesAt` — nodes are told by their indices.
* `Tree.reached` — the root and what stands below it, in pre-order.
* `Branching.map_index_visit`, `Branching.mem_visit` — what a visit meets.
* `Built.walk_eq_preorder` — all this together.
-/

namespace BuildDigest.Tree

variable {t : Tree} {i : Nat}

/-- Nodes are told by their indices, since each stands at its own. -/
theorem Linked.map_index_nodesAt (h : t.Linked) {is : List Nat} (his : ∀ i ∈ is, i < t.size) :
    (t.nodesAt is).map (·.index) = is := by
  induction is with
  | nil => rfl
  | cons i is ih =>
    rw [List.forall_mem_cons] at his
    obtain ⟨n, hn⟩ := exists_node his.1
    rw [nodesAt_cons_of_nodes hn, List.map_cons, ih his.2, h.index_of_nodes hn]

/-- A walk without a bound ends, and the walk with its bound yields the same. -/
theorem Branching.exists_walked (h : t.Branching) (stop : Node → Bool) {place : Value}
    (hPlace : t.locate place = .ok i) :
    ∃ ns, t.Walks stop (t.kids i) ns ∧ t.walk place stop = .ok ns ∧
      ns.map (·.index) = t.preorder stop i ∧ ∀ n ∈ ns, t.nodes[n.index]? = some n := by
  have hi := lt_size_of_locate hPlace
  obtain ⟨n, hn⟩ := exists_node hi
  refine ⟨t.nodesAt (t.preorder stop i), h.walks_kids stop i, ?_, ?_, ?_⟩
  · rw [walk, if_neg (Nat.ne_of_gt (Nat.zero_lt_of_lt hi)), node, hPlace]
    simp only [hn, Except.map, h.below_eq hn]
  · exact h.map_index_nodesAt fun d hd => h.lt_size_of_below (h.below_of_mem_preorder hd)
  · intro m hm
    obtain ⟨d, _, hm⟩ := mem_nodesAt.mp hm
    rwa [h.index_of_nodes hm]

-- ---------------------------------------------------------------------------
-- Visits
-- ---------------------------------------------------------------------------

/-- The indices of the root and of what stands below it, in pre-order. -/
def reached (t : Tree) : List Nat :=
  if t.size = 0 then [] else 0 :: t.preorder (fun _ => false) 0

/-- What is reached is the root and what stands below it. -/
theorem Branching.mem_reached (h : t.Branching) {d : Nat} :
    d ∈ t.reached ↔ d < t.size ∧ Relation.ReflTransGen t.IsKid 0 d := by
  rw [reached]
  split
  · next hEmpty =>
    rw [hEmpty]
    simp
  · next hSome =>
    rw [List.mem_cons, h.mem_preorder_iff_below, Relation.reflTransGen_iff_eq_or_transGen]
    constructor
    · rintro (rfl | hBelow)
      · exact ⟨Nat.pos_of_ne_zero hSome, Or.inl rfl⟩
      · exact ⟨h.lt_size_of_below hBelow, Or.inr hBelow⟩
    · exact And.right

/-- No index is reached twice. -/
theorem Branching.nodup_reached (h : t.Branching) : t.reached.Nodup := by
  rw [reached]
  split
  · exact List.nodup_nil
  · rw [List.nodup_cons, h.mem_preorder_iff_below]
    refine ⟨fun hSelf => ?_, h.nodup_preorder _ 0⟩
    -- nothing stands below itself
    obtain ⟨d, hKid, hBelow⟩ := Relation.TransGen.head'_iff.mp hSelf
    have := h.rising 0 d hKid
    have := h.le_of_reflTransGen hBelow
    omega

/-- A visit yields the nodes of a kind among those that are reached. -/
theorem Branching.visit_eq (h : t.Branching) (kind : Node.Kind) :
    t.visit kind = (t.nodesAt t.reached).filter (·.kind = kind) := by
  rw [visit, root?, reached]
  cases hRoot : t.nodes[0]? with
  | none =>
    have hEmpty : t.size = 0 := Nat.le_zero.mp (Array.getElem?_eq_none_iff.mp hRoot)
    rw [if_pos hEmpty]
    rfl
  | some root =>
    have hSome : ¬ t.size = 0 := by
      have hPos : 0 < t.size := (Array.getElem?_eq_some_iff.mp hRoot).1
      omega
    rw [if_neg hSome, nodesAt_cons_of_nodes hRoot]
    simp only [h.below_eq hRoot]

/-- A visit meets the nodes of a kind in pre-order. -/
theorem Branching.map_index_visit (h : t.Branching) (kind : Node.Kind) :
    (t.visit kind).map (·.index) =
      t.reached.filter fun i => (t.row i).any (·.kind = kind) := by
  have hReached : (t.nodesAt t.reached).map (·.index) = t.reached :=
    h.map_index_nodesAt fun d hd => (h.mem_reached.mp hd).1
  rw [h.visit_eq]
  conv_rhs => rw [← hReached, List.filter_map]
  congr 1
  refine List.filter_congr fun n hn => ?_
  obtain ⟨d, _, hn⟩ := mem_nodesAt.mp hn
  rw [Function.comp_apply, h.index_of_nodes hn, row, hn]
  rfl

/-- A visit meets every node of a kind that stands at or below the root, and no other. -/
theorem Branching.mem_visit (h : t.Branching) {kind : Node.Kind} {n : Node} :
    n ∈ t.visit kind ↔
      n.kind = kind ∧ ∃ d, Relation.ReflTransGen t.IsKid 0 d ∧ t.nodes[d]? = some n := by
  rw [h.visit_eq, List.mem_filter, mem_nodesAt, decide_eq_true_eq, and_comm]
  refine and_congr_right fun _ => exists_congr fun d => ?_
  rw [h.mem_reached]
  constructor
  · rintro ⟨⟨_, hBelow⟩, hn⟩
    exact ⟨hBelow, hn⟩
  · rintro ⟨hBelow, hn⟩
    exact ⟨⟨(Array.getElem?_eq_some_iff.mp hn).1, hBelow⟩, hn⟩

/-- In a tree that is built by adding nodes below those that are there, a walk from any place, past
any stop, ends and yields the pre-order: each child in turn, followed by what is below it unless the
walk stops there. Without a stop that is all that stands below the place, each node once. A visit
meets the nodes of a kind that are reached from the root, each once, in the same order. -/
theorem Built.walk_eq_preorder (h : t.Built) :
    (∀ stop i, t.preorder stop i =
      (t.kids i).flatMap fun c => c :: if t.stopsAt stop c then [] else t.preorder stop c) ∧
    (∀ stop place i, t.locate place = .ok i →
      ∃ ns, t.Walks stop (t.kids i) ns ∧ t.walk place stop = .ok ns ∧
        ns.map (·.index) = t.preorder stop i ∧ ∀ n ∈ ns, t.nodes[n.index]? = some n) ∧
    (∀ stop place, t.size = 0 → t.walk place stop = .ok []) ∧
    (∀ i, (t.preorder (fun _ => false) i).Nodup ∧
      ∀ d, d ∈ t.preorder (fun _ => false) i ↔ t.Below i d) ∧
    ∀ kind, t.reached.Nodup ∧
      (t.visit kind).map (·.index) = t.reached.filter (fun i => (t.row i).any (·.kind = kind)) ∧
      ∀ n, n ∈ t.visit kind ↔
        n.kind = kind ∧ ∃ d, Relation.ReflTransGen t.IsKid 0 d ∧ t.nodes[d]? = some n := by
  have hBranching := h.branching
  refine ⟨hBranching.preorder_eq, fun stop place i => hBranching.exists_walked stop, ?_, ?_, ?_⟩
  · exact fun stop place hEmpty => if_pos hEmpty
  · exact fun i => ⟨hBranching.nodup_preorder _ i, fun d => hBranching.mem_preorder_iff_below⟩
  · exact fun kind => ⟨hBranching.nodup_reached, hBranching.map_index_visit kind,
      fun n => hBranching.mem_visit⟩

/-- A project that builds another one inside a task, below its root. -/
def nestedProjects : Tree :=
  [ (.null, .build), (.int 0, .project), (.int 1, .target), (.int (-2), .task),
    (.int 3, .commandLine), (.int 3, .project), (.int 5, .target), (.bool true, .message)
  ].foldl (fun t p => t.add p.1 { kind := p.2 }) .empty

/-- The walk stops at the inner project, which it still yields, and the visit meets it once. -/
theorem walk_eq_preorder_nestedProjects :
    nestedProjects.Built ∧
      ∃ ns, nestedProjects.walk (.int 1) (·.kind = .project) = .ok ns ∧
        nestedProjects.Walks (·.kind = .project) [2, 7] ns ∧
        nestedProjects.preorder (·.kind = .project) 1 = [2, 3, 4, 5, 7] ∧
        (nestedProjects.visit .project).map (·.index) = [1, 5] := by
  have hBuilt : nestedProjects.Built := by
    repeat refine Built.add ?_ _ (by decide)
    exact .empty
  obtain ⟨-, hWalked, -⟩ := hBuilt.walk_eq_preorder
  obtain ⟨ns, hWalks, hWalk, hIndices, -⟩ := hWalked (·.kind = .project) (.int 1) 1 rfl
  refine ⟨hBuilt, ns, hWalk, hWalks, ?_, rfl⟩
  cases hWalk
  exact hIndices.symm

end BuildDigest.Tree
