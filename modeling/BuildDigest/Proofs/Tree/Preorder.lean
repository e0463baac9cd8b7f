import BuildDigest.Proofs.Tree.Linked
import Mathlib.Data.List.Nodup
import Mathlib.Data.List.Perm.Subperm
import Mathlib.Data.List.Sort

/-!
# Walks are pre-order

The walk through a tree works off a list of pending indices under a bound on its
steps. Where children stand behind their parents the list runs empty and the bound
is never met, and the walk is the pre-order defined by recursion on the tree: every
child of a node in turn, followed by what is below it unless the walk stops there.

* `Tree.preorder` — the recursive definition.
* `Branching.walks_kids`, `Branching.below_eq` — a walk ends and yields exactly it.
* `Branching.mem_preorder_iff_below` — what it contains, if the walk stops nowhere.
* `Branching.nodup_preorder` — nothing is met twice.
* `WellFormed.mem_preorder_iff` — what it contains, read off the way up.
* `WellFormed.filter_preorder_eq_select` — where nodes arrive depth first
  (`Nested`), pre-order is the order of arrival.
-/

namespace BuildDigest.Tree

variable {t : Tree} {stop : Node → Bool}

def stopsAt (t : Tree) (stop : Node → Bool) (i : Nat) : Bool :=
  (t.nodes[i]?).any stop

/-- The indices below a node in pre-order, with nothing below those where the walk stops. -/
def preorder (t : Tree) (stop : Node → Bool) (i : Nat) : List Nat :=
  (t.kids i).flatMap fun c =>
    if _h : i < c ∧ c < t.size then c :: (if t.stopsAt stop c then [] else t.preorder stop c)
    else []
termination_by t.size - i

def branch (t : Tree) (stop : Node → Bool) (c : Nat) : List Nat :=
  c :: if t.stopsAt stop c then [] else t.preorder stop c

/-- The pre-order below a node goes through its children: each one is followed by what is below
it. -/
theorem Branching.preorder_eq (h : t.Branching) (stop : Node → Bool) (i : Nat) :
    t.preorder stop i = (t.kids i).flatMap (t.branch stop) := by
  rw [preorder]
  apply List.flatMap_congr
  intro c hc
  exact dif_pos ⟨h.rising i c hc, h.lt_size i c hc⟩

/-- Induction down the tree: a property of all children passes to their parent. -/
theorem Branching.descent_induction (h : t.Branching) {motive : Nat → Prop}
    (step : ∀ i, (∀ c ∈ t.kids i, motive c) → motive i) (i : Nat) : motive i := by
  -- children stand behind their parent, so fewer nodes are left for each of them
  generalize hk : t.size - i = k
  induction k using Nat.strongRecOn generalizing i with
  | ind k ih =>
    refine step i fun c hc => ?_
    have hRising := h.rising i c hc
    have hSize := h.lt_size i c hc
    exact ih (t.size - c) (by omega) c rfl

/-- In the branch of a child stand the child and, unless the walk stops there, what is below it. -/
theorem mem_branch {c d : Nat} :
    d ∈ t.branch stop c ↔ d = c ∨ t.stopsAt stop c = false ∧ d ∈ t.preorder stop c := by
  rw [branch, List.mem_cons]
  cases t.stopsAt stop c <;> simp

theorem Branching.mem_preorder (h : t.Branching) {i d : Nat} :
    d ∈ t.preorder stop i ↔ ∃ c ∈ t.kids i, d ∈ t.branch stop c := by
  rw [h.preorder_eq, List.mem_flatMap]

-- ---------------------------------------------------------------------------
-- What a walk meets
-- ---------------------------------------------------------------------------

/-- What the pre-order yields stands below the node where it starts. -/
theorem Branching.below_of_mem_preorder (h : t.Branching) {i d : Nat}
    (hd : d ∈ t.preorder stop i) : t.Below i d := by
  induction i using h.descent_induction with
  | step i ih =>
    obtain ⟨c, hc, hd⟩ := h.mem_preorder.mp hd
    rcases mem_branch.mp hd with rfl | ⟨_, hd⟩
    · exact .single hc
    · exact .head hc (ih c hc hd)

/-- A walk that stops nowhere meets what stands below the node where it starts. -/
theorem Branching.mem_preorder_iff_below (h : t.Branching) {i d : Nat} :
    d ∈ t.preorder (fun _ => false) i ↔ t.Below i d := by
  refine ⟨h.below_of_mem_preorder, fun hd => ?_⟩
  have hGo : ∀ c, t.stopsAt (fun _ => false) c = false := fun c => by
    rw [stopsAt]
    cases t.nodes[c]? <;> rfl
  induction hd using Relation.TransGen.head_induction_on with
  | single hKid => exact h.mem_preorder.mpr ⟨d, hKid, mem_branch.mpr (Or.inl rfl)⟩
  | @head i c hKid _ ih =>
    exact h.mem_preorder.mpr ⟨c, hKid, mem_branch.mpr (Or.inr ⟨hGo c, ih⟩)⟩

/-- What stands below a node is there. -/
theorem Branching.lt_size_of_below (h : t.Branching) {i d : Nat} (hd : t.Below i d) :
    d < t.size := by
  cases hd with
  | single hKid => exact h.lt_size _ _ hKid
  | tail _ hKid => exact h.lt_size _ _ hKid

/-- What stands in the branch of a child is the child or below it. -/
theorem Branching.reflTransGen_of_mem_branch (h : t.Branching) {c d : Nat}
    (hd : d ∈ t.branch stop c) : Relation.ReflTransGen t.IsKid c d := by
  rcases mem_branch.mp hd with rfl | ⟨_, hd⟩
  · exact .refl
  · exact (h.below_of_mem_preorder hd).to_reflTransGen

/-- The pre-order yields no index twice, by induction from the children to their parent: the branches
of two children are disjoint, because each node is listed once. -/
theorem Branching.nodup_preorder (h : t.Branching) (stop : Node → Bool) (i : Nat) :
    (t.preorder stop i).Nodup := by
  induction i using h.descent_induction with
  | step i ih =>
    rw [h.preorder_eq, List.nodup_flatMap]
    refine ⟨?_, ?_⟩
    · intro c hc
      rw [branch, List.nodup_cons]
      split
      · exact ⟨nofun, List.nodup_nil⟩
      · refine ⟨fun hSelf => ?_, ih c hc⟩
        -- what is met below a child stands behind it
        obtain ⟨d, hKid, hBelow⟩ := Relation.TransGen.head'_iff.mp (h.below_of_mem_preorder hSelf)
        have := h.rising c d hKid
        have := h.le_of_reflTransGen hBelow
        omega
    · -- nothing is met below two children of one node
      refine (h.sorted i).imp_of_mem fun {c c'} hc hc' hlt d hd hd' => ?_
      have hEq := h.eq_of_siblings hc hc' (h.reflTransGen_of_mem_branch hd)
        (h.reflTransGen_of_mem_branch hd')
      omega

-- ---------------------------------------------------------------------------
-- What a walk meets, read off the way up
-- ---------------------------------------------------------------------------

theorem WellFormed.mem_preorder (h : t.WellFormed) {i d : Nat} :
    d ∈ t.preorder stop i ↔ ∃ c, t.parent? c = some i ∧ d ∈ t.branch stop c := by
  simp only [h.branching.mem_preorder, h.mem_kids]

/-- A walk meets the nodes whose parents it starts from or meets without stopping there. -/
theorem WellFormed.mem_preorder_iff_parent (h : t.WellFormed) {i d : Nat} :
    d ∈ t.preorder stop i ↔
      ∃ p, t.parent? d = some p ∧
        (p = i ∨ p ∈ t.preorder stop i ∧ t.stopsAt stop p = false) := by
  induction i using h.branching.descent_induction with
  | step i ih =>
    constructor
    · intro hd
      obtain ⟨c, hc, hd⟩ := h.mem_preorder.mp hd
      rcases mem_branch.mp hd with rfl | ⟨hGo, hd⟩
      · exact ⟨i, hc, Or.inl rfl⟩
      · obtain ⟨p, hp, hCase⟩ := (ih c (h.mem_kids.mpr hc)).mp hd
        refine ⟨p, hp, Or.inr ?_⟩
        rcases hCase with rfl | ⟨hMem, hGoOn⟩
        · exact ⟨h.mem_preorder.mpr ⟨p, hc, mem_branch.mpr (Or.inl rfl)⟩, hGo⟩
        · exact ⟨h.mem_preorder.mpr ⟨c, hc, mem_branch.mpr (Or.inr ⟨hGo, hMem⟩)⟩, hGoOn⟩
    · rintro ⟨p, hp, hCase⟩
      rcases hCase with rfl | ⟨hMem, hGoOn⟩
      · exact h.mem_preorder.mpr ⟨d, hp, mem_branch.mpr (Or.inl rfl)⟩
      · -- the parent is met in the branch of some child, and so is what hangs from it
        obtain ⟨c, hc, hMem⟩ := h.mem_preorder.mp hMem
        refine h.mem_preorder.mpr ⟨c, hc, mem_branch.mpr (Or.inr ?_)⟩
        have hDeeper := ih c (h.mem_kids.mpr hc)
        rcases mem_branch.mp hMem with rfl | ⟨hGo, hMem⟩
        · exact ⟨hGoOn, hDeeper.mpr ⟨p, hp, Or.inl rfl⟩⟩
        · exact ⟨hGo, hDeeper.mpr ⟨p, hp, Or.inr ⟨hMem, hGoOn⟩⟩⟩

/-- A walk from `i` meets a node exactly when the way up from it leads to `i` and the walk stops
nowhere in between. -/
theorem WellFormed.mem_preorder_iff (h : t.WellFormed) {i d : Nat} :
    d ∈ t.preorder stop i ↔
      ∃ js rest, t.trail d = js ++ i :: rest ∧ ∀ j ∈ js, t.stopsAt stop j = false := by
  induction d using h.trail_induction with
  | top d hd =>
    rw [h.mem_preorder_iff_parent, trail_eq_nil hd, hd]
    simp
  | below d p hp ih =>
    rw [h.mem_preorder_iff_parent, h.trail_eq_cons hp, hp]
    constructor
    · rintro ⟨q, hq, hCase⟩
      obtain rfl := Option.some.inj hq
      rcases hCase with rfl | ⟨hMem, hGo⟩
      · exact ⟨[], t.trail p, rfl, nofun⟩
      · obtain ⟨js, rest, hTrail, hAll⟩ := ih.mp hMem
        refine ⟨p :: js, rest, by rw [hTrail, List.cons_append], ?_⟩
        rw [List.forall_mem_cons]
        exact ⟨hGo, hAll⟩
    · rintro ⟨js, rest, hTrail, hAll⟩
      refine ⟨p, rfl, ?_⟩
      -- the parent is where the walk starts, or one of those in between
      cases js with
      | nil =>
        rw [List.nil_append, List.cons.injEq] at hTrail
        exact Or.inl hTrail.1
      | cons j js =>
        rw [List.cons_append, List.cons.injEq] at hTrail
        obtain ⟨rfl, hTrail⟩ := hTrail
        rw [List.forall_mem_cons] at hAll
        exact Or.inr ⟨ih.mpr ⟨js, rest, hTrail, hAll.2⟩, hAll.1⟩

/-- A node is on the way up from what a walk yields below it. -/
theorem WellFormed.mem_trail_of_mem_preorder (h : t.WellFormed) {i d : Nat}
    (hd : d ∈ t.preorder stop i) : i ∈ t.trail d := by
  obtain ⟨js, rest, hTrail, _⟩ := h.mem_preorder_iff.mp hd
  rw [hTrail]
  exact List.mem_append_right js (List.mem_cons_self ..)

theorem WellFormed.mem_of_mem_branch (h : t.WellFormed) {c d : Nat}
    (hd : d ∈ t.branch stop c) : c ∈ d :: t.trail d := by
  rcases mem_branch.mp hd with rfl | ⟨_, hd⟩
  · exact List.mem_cons_self ..
  · exact List.mem_cons_of_mem _ (h.mem_trail_of_mem_preorder hd)

-- ---------------------------------------------------------------------------
-- The walk and its bound
-- ---------------------------------------------------------------------------

/-- A walk without a bound on its steps, to its end: the first of the pending indices is that of the
next node, and the children of the node come in front of the rest unless the walk stops there. -/
inductive Walks (t : Tree) (stop : Node → Bool) : List Nat → List Node → Prop
  | done : Walks t stop [] []
  | visit {i : Nat} {n : Node} {pending : List Nat} {met : List Node} (hn : t.nodes[i]? = some n)
    (hRest : Walks t stop (if stop n then pending else n.children ++ pending) met) :
    Walks t stop (i :: pending) (n :: met)

/-- With a step for every node that is met, the bound is not. -/
theorem Walks.walkFrom_eq {pending : List Nat} {met : List Node} (h : t.Walks stop pending met)
    {fuel : Nat} (hFuel : met.length ≤ fuel) : t.walkFrom stop fuel pending = met := by
  induction h generalizing fuel with
  | done => cases fuel <;> rfl
  | visit hn _ ih =>
    cases fuel with
    | zero => cases hFuel
    | succ fuel =>
      rw [List.length_cons, Nat.add_le_add_iff_right] at hFuel
      simp only [walkFrom, hn, ih hFuel]

/-- Pending indices are worked off branch by branch. -/
theorem Branching.walks (h : t.Branching) (stop : Node → Bool) {pending : List Nat}
    (hPending : ∀ i ∈ pending, i < t.size) :
    t.Walks stop pending (t.nodesAt (pending.flatMap (t.branch stop))) := by
  -- every step takes one index off what is still to be met
  generalize hk : (pending.flatMap (t.branch stop)).length = k
  induction k generalizing pending with
  | zero =>
    cases pending with
    | nil => exact .done
    | cons i pending => simp [branch] at hk
  | succ k ih =>
    cases pending with
    | nil => simp at hk
    | cons i pending =>
      rw [List.forall_mem_cons] at hPending
      obtain ⟨n, hn⟩ := exists_node hPending.1
      have hStop : t.stopsAt stop i = stop n := by rw [stopsAt, hn]; rfl
      have hHere : (i :: pending).flatMap (t.branch stop) =
          i :: (if stop n then pending else n.children ++ pending).flatMap (t.branch stop) := by
        rw [List.flatMap_cons, branch, hStop, List.cons_append]
        congr 1
        cases stop n with
        | true => rfl
        | false =>
          -- the children come first, and their branches are what is below the node
          rw [if_neg Bool.false_ne_true, if_neg Bool.false_ne_true, h.preorder_eq,
            kids_of_nodes hn, List.flatMap_append]
      rw [hHere, List.length_cons, Nat.add_right_cancel_iff] at hk
      rw [hHere, nodesAt_cons_of_nodes hn]
      refine .visit hn (ih (fun j hj => ?_) hk)
      split at hj
      · exact hPending.2 j hj
      · rcases List.mem_append.mp hj with hj | hj
        · exact h.lt_size i j (kids_of_nodes hn ▸ hj)
        · exact hPending.2 j hj

/-- A walk over the children of a node yields the pre-order. -/
theorem Branching.walks_kids (h : t.Branching) (stop : Node → Bool) (i : Nat) :
    t.Walks stop (t.kids i) (t.nodesAt (t.preorder stop i)) := by
  rw [h.preorder_eq]
  exact h.walks stop (h.lt_size i)

/-- Distinct indices below the size are no more than the size. -/
theorem Branching.length_preorder_le (h : t.Branching) (stop : Node → Bool) (i : Nat) :
    (t.preorder stop i).length ≤ t.size := by
  have hSub : t.preorder stop i ⊆ List.range t.size := fun d hd =>
    List.mem_range.mpr (h.lt_size_of_below (h.below_of_mem_preorder hd))
  simpa using ((h.nodup_preorder stop i).subperm hSub).length_le

/-- The walk below a node is the pre-order below it. -/
theorem Branching.below_eq (h : t.Branching) {i : Nat} {n : Node} (hn : t.nodes[i]? = some n) :
    t.below stop n = t.nodesAt (t.preorder stop i) := by
  rw [below, ← kids_of_nodes hn]
  exact (h.walks_kids stop i).walkFrom_eq
    (Nat.le_trans (List.length_filterMap_le _ _) (h.length_preorder_le stop i))

-- ---------------------------------------------------------------------------
-- Pre-order and order of arrival
-- ---------------------------------------------------------------------------

/-- Nodes with a property arrive depth first: when a later one stands below a node, so does every
one that arrived in between. -/
def Nested (t : Tree) (P : Node → Bool) : Prop :=
  ∀ c, ∀ d ∈ t.select P, ∀ e ∈ t.select P, c < d → d < e → c ∈ t.trail e → c ∈ t.trail d

/-- Nodes that arrive depth first are met in the order in which they arrived. -/
theorem WellFormed.pairwise_filter_preorder (h : t.WellFormed) {P : Node → Bool}
    (hNested : t.Nested P) (stop : Node → Bool) (i : Nat) :
    ((t.preorder stop i).filter (· ∈ t.select P)).Pairwise (· < ·) := by
  induction i using h.branching.descent_induction with
  | step i ih =>
    rw [h.branching.preorder_eq, List.filter_flatMap, List.pairwise_flatMap]
    refine ⟨?_, ?_⟩
    · -- within one branch the child stands before all that is below it
      intro c hc
      have hBelow : ((if t.stopsAt stop c then [] else t.preorder stop c).filter
          (· ∈ t.select P)).Pairwise (· < ·) := by
        split
        · exact List.Pairwise.nil
        · exact ih c hc
      rw [branch, List.filter_cons]
      split
      · refine List.pairwise_cons.mpr ⟨fun d hd => ?_, hBelow⟩
        have hd := (List.mem_filter.mp hd).1
        split at hd
        · cases hd
        · exact h.lt_of_mem_trail (h.mem_trail_of_mem_preorder hd)
      · exact hBelow
    · refine (h.pairwise_kids i).imp_of_mem fun {c c'} hc hc' hlt d hd e he => ?_
      obtain ⟨hd, hdP⟩ := List.mem_filter.mp hd
      obtain ⟨he, heP⟩ := List.mem_filter.mp he
      have hcd := h.mem_of_mem_branch hd
      have hce := h.mem_of_mem_branch he
      have hParent := h.mem_kids.mp hc
      have hParent' := h.mem_kids.mp hc'
      -- were `e` before `d`, it would stand below both children
      by_contra hNot
      have hce' : c' ≤ e := by
        rcases List.mem_cons.mp hce with hEq | hMem
        · omega
        · exact Nat.le_of_lt (h.lt_of_mem_trail hMem)
      have hBoth : c ∈ e :: t.trail e := by
        by_cases hde : d = e
        · exact hde ▸ hcd
        · have hcTrail : c ∈ t.trail d := by
            rcases List.mem_cons.mp hcd with hEq | hMem
            · omega
            · exact hMem
          exact List.mem_cons_of_mem _ (hNested c e (of_decide_eq_true heP) d
            (of_decide_eq_true hdP) (by omega) (by omega) hcTrail)
      have := h.eq_of_siblings hBoth hce hParent hParent'
      omega

/-- A walk that is asked for some of the nodes that arrive depth first yields those that it meets,
in the order in which they arrived. -/
theorem WellFormed.filter_preorder_eq_select (h : t.WellFormed) {P : Node → Bool}
    (hNested : t.Nested P) {i : Nat} {Q : Nat → Bool} {R : Nat → Bool}
    (hQ : ∀ d, Q d = true → d ∈ t.select P)
    (hR : ∀ d, Q d = true → (d ∈ t.preorder stop i ↔ R d = true)) :
    (t.preorder stop i).filter Q = (t.select P).filter fun d => Q d && R d := by
  -- both sides are in order and have the same members
  have hAgain : (t.preorder stop i).filter Q =
      ((t.preorder stop i).filter (· ∈ t.select P)).filter Q := by
    rw [List.filter_filter]
    apply List.filter_congr
    intro d _
    cases hd : Q d with
    | false => rfl
    | true => simp [hQ d hd]
  have hLeft : ((t.preorder stop i).filter Q).Pairwise (· < ·) := by
    rw [hAgain]
    exact (h.pairwise_filter_preorder hNested stop i).filter _
  refine hLeft.eq_of_mem_iff ((pairwise_select t P).filter _) fun d => ?_
  rw [List.mem_filter, List.mem_filter, Bool.and_eq_true]
  constructor
  · rintro ⟨hd, hQd⟩
    exact ⟨hQ d hQd, hQd, (hR d hQd).mp hd⟩
  · rintro ⟨_, hQd, hRd⟩
    exact ⟨(hR d hQd).mpr hRd, hQd⟩

end BuildDigest.Tree
