import BuildDigest.Proofs.Folders.Frame
import BuildDigest.Proofs.Tree.Preorder

/-!
# The tree while a build runs

Events are logged below the innermost open node. So the tree has one root, and
logged nodes arrive depth first: whatever arrived after an open node stands below
it. What is filed in folders may come late and does not count.

* `Standing` — the invariant of a tree and its innermost open node.
* `Standing.add`, `Standing.add_open` — a node is logged below the open one, or opened there.
* `Standing.filed`, `Standing.change` — filing and changes in place keep it.
* `Standing.climb` — nodes are closed.
-/

namespace BuildDigest

/-- Whether a node was logged, and not filed in a folder. -/
def Node.isLogged (n : Node) : Bool :=
  !n.kind.isFiling

namespace Tree

variable {t t' : Tree} {i : Nat}

/-- A tree whose innermost open node is `i`. -/
structure Standing (t : Tree) (i : Nat) : Prop where
  wellFormed : t.WellFormed
  namesText : t.NamesText
  root : ∃ n, t.row 0 = some n ∧ n.kind = .build
  below : ∀ j, 0 < j → j < t.size → ∃ p, t.parent? j = some p
  isOpen : i < t.size
  nested : t.Nested Node.isLogged
  cover : ∀ c ∈ i :: t.trail i, ∀ d ∈ t.select Node.isLogged, c < d → c ∈ t.trail d

/-- All nodes but the root stand below it. -/
theorem Standing.root_mem_trail (h : t.Standing i) {d : Nat} (hPos : 0 < d) (hd : d < t.size) :
    0 ∈ t.trail d := by
  induction d using Nat.strongRecOn with
  | ind d ih =>
    obtain ⟨p, hp⟩ := h.below d hPos hd
    have hlt := h.wellFormed.lt_of_parent? hp
    rw [h.wellFormed.trail_eq_cons hp]
    rcases Nat.eq_zero_or_pos p with rfl | hpPos
    · exact List.mem_cons_self ..
    · exact List.mem_cons_of_mem p (ih p hlt hpPos (by omega))

/-- The root alone is a tree whose innermost open node it is. -/
theorem standing_root {n : Node} (hKind : n.kind = .build) (hName : ∃ s, n.name = .text s) :
    (empty.add .null n).Standing 0 where
  wellFormed := wellFormed_empty.push_root n
  namesText := namesText_add (fun i m h => by simp [row, empty] at h) _ hName
  root := ⟨_, row_add_size empty .null n, hKind⟩
  below j hPos hj := by
    have hSize : (empty.add .null n).size = 1 := size_add _ _ _
    omega
  isOpen := by
    rw [size_add]
    omega
  nested c d hd e he hcd hde _ := by
    obtain ⟨m, hRow, _⟩ := mem_select.mp he
    have := lt_size_of_row hRow
    have hSize : (empty.add .null n).size = 1 := size_add _ _ _
    omega
  cover c _ d hd hcd := by
    have := lt_size_of_mem_select hd
    have hSize : (empty.add .null n).size = 1 := size_add _ _ _
    omega

/-- Nodes are closed from the inside: every node on the way up can be the innermost open one. What
arrived after it stands below it. -/
theorem Standing.climb (h : t.Standing i) {j : Nat} (hj : j ∈ i :: t.trail i) : t.Standing j where
  wellFormed := h.wellFormed
  namesText := h.namesText
  root := h.root
  below := h.below
  isOpen := by
    rcases List.mem_cons.mp hj with rfl | hj
    · exact h.isOpen
    · exact Nat.lt_trans (h.wellFormed.lt_of_mem_trail hj) h.isOpen
  nested := h.nested
  cover c hc := by
    -- what is open above `j` is open above `i`
    refine h.cover c ?_
    rcases List.mem_cons.mp hj with rfl | hj
    · exact hc
    · obtain ⟨js, hjs⟩ := h.wellFormed.trail_split hj
      rw [hjs]
      exact List.mem_cons_of_mem i (List.mem_append_right js hc)

theorem Standing.climb_root (h : t.Standing i) : t.Standing 0 := by
  apply h.climb
  rcases Nat.eq_zero_or_pos i with rfl | hPos
  · exact List.mem_cons_self ..
  · exact List.mem_cons_of_mem i (h.root_mem_trail hPos h.isOpen)

-- ---------------------------------------------------------------------------
-- A node is logged
-- ---------------------------------------------------------------------------

/-- What is chosen after a node came was chosen before, or is the new node. -/
theorem mem_select_add {P : Node → Bool} {p d : Nat} {n : Node} :
    d ∈ (t.add (.int p) n).select P → d ∈ t.select P ∨ d = t.size := by
  rw [select_add, List.mem_append]
  intro hd
  rcases hd with hd | hd
  · exact Or.inl hd
  · split at hd
    · exact Or.inr (List.mem_singleton.mp hd)
    · cases hd

/-- A node that comes below the innermost open one comes below all that are open. -/
theorem Standing.cover_add (h : t.Standing i) (n : Node) {c d : Nat} (hc : c ∈ i :: t.trail i)
    (hd : d ∈ (t.add (.int i) n).select Node.isLogged) (hcd : c < d) :
    c ∈ (t.add (.int i) n).trail d := by
  rcases mem_select_add hd with hOld | rfl
  · rw [trail_add_of_lt (lt_size_of_mem_select hOld)]
    exact h.cover c hc d hOld hcd
  · rwa [trail_add_size h.isOpen]

/-- A node is logged below the open one. -/
theorem Standing.add (h : t.Standing i) {n : Node} (hName : ∃ s, n.name = .text s) :
    (t.add (.int i) n).Standing i where
  wellFormed := wellFormed_add h.wellFormed h.isOpen n
  namesText := namesText_add h.namesText _ hName
  root := by
    obtain ⟨m, hRow, hKind⟩ := h.root
    exact ⟨m, by rw [row_add_of_lt (lt_size_of_row hRow), hRow], hKind⟩
  below j hPos hj := by
    rw [size_add] at hj
    by_cases hOld : j < t.size
    · rw [parent?_add_of_lt hOld]
      exact h.below j hPos hOld
    · have hNew : j = t.size := by omega
      exact ⟨i, hNew ▸ parent?_add_size t i n⟩
  isOpen := by
    have := h.isOpen
    rw [size_add]
    omega
  nested c d hd e he hcd hde hce := by
    have he' : e ≤ t.size := by
      have := lt_size_of_mem_select he
      rw [size_add] at this
      omega
    have hdOld : d ∈ t.select Node.isLogged := by
      rcases mem_select_add hd with hOld | rfl
      · exact hOld
      · omega
    rw [trail_add_of_lt (lt_size_of_mem_select hdOld)]
    rcases mem_select_add he with heOld | rfl
    · rw [trail_add_of_lt (lt_size_of_mem_select heOld)] at hce
      exact h.nested c d hdOld e heOld hcd hde hce
    · -- the new node stands below the open nodes, which cover all that was there
      rw [trail_add_size h.isOpen] at hce
      exact h.cover c hce d hdOld hcd
  cover c hc d hd hcd := by
    rw [trail_add_of_lt h.isOpen] at hc
    exact h.cover_add n hc hd hcd

/-- A node opened below the innermost open one is the innermost open one. -/
theorem Standing.add_open (h : t.Standing i) {n : Node} (hName : ∃ s, n.name = .text s) :
    (t.add (.int i) n).Standing t.size where
  wellFormed := (h.add hName).wellFormed
  namesText := (h.add hName).namesText
  root := (h.add hName).root
  below := (h.add hName).below
  isOpen := by
    rw [size_add]
    omega
  nested := (h.add hName).nested
  cover c hc d hd hcd := by
    rw [trail_add_size h.isOpen, List.mem_cons] at hc
    rcases hc with rfl | hc
    · -- nothing is behind the new node
      have := lt_size_of_mem_select hd
      rw [size_add] at this
      omega
    · exact h.cover_add n hc hd hcd

-- ---------------------------------------------------------------------------
-- Filing and changes in place
-- ---------------------------------------------------------------------------

/-- Filing leaves which nodes are chosen by a test that no filed node passes. -/
theorem Filed.select_eq {S : Nat → Prop} (h : Filed S t t') {P : Node → Bool}
    (hLabel : ∀ n n', n'.label = n.label → P n' = P n)
    (hFiling : ∀ n, P n = true → n.kind.isFiling = false) : t'.select P = t.select P := by
  refine (pairwise_select t' P).eq_of_mem_iff (pairwise_select t P) fun i => ?_
  rw [mem_select, mem_select]
  by_cases hi : i < t.size
  · obtain ⟨n, hRow⟩ := exists_row hi
    obtain ⟨n', hRow', hSame, _⟩ := h.spares.row i n hRow
    rw [hRow, hRow']
    simp [hLabel n n' hSame]
  · rw [row_eq_none (Nat.le_of_not_lt hi)]
    constructor
    · rintro ⟨n, hRow, hP⟩
      have := h.filing i n (Nat.le_of_not_lt hi) hRow
      rw [hFiling n hP] at this
      cases this
    · rintro ⟨n, hRow, _⟩
      cases hRow

theorem isLogged_congr (n n' : Node) (h : n'.label = n.label) : n'.isLogged = n.isLogged := by
  rw [Node.isLogged, Node.isLogged, (Node.label_eq_iff.mp h).1]

theorem Filed.select_isLogged {S : Nat → Prop} (h : Filed S t t') :
    t'.select Node.isLogged = t.select Node.isLogged := by
  refine h.select_eq isLogged_congr fun n hn => ?_
  simpa [Node.isLogged] using hn

/-- Nodes stand as before when their labels stay, and no new ones are logged. -/
theorem Standing.spares {S : Nat → Prop} (h : t.Standing i) (hSpares : Spares S t t')
    (hWf : t'.WellFormed) (hNames : t'.NamesText)
    (hLogged : t'.select Node.isLogged = t.select Node.isLogged)
    (hNew : ∀ j, t.size ≤ j → j < t'.size → ∃ p, t'.parent? j = some p) : t'.Standing i where
  wellFormed := hWf
  namesText := hNames
  root := by
    obtain ⟨n, hRow, hKind⟩ := h.root
    obtain ⟨n', hRow', hLabel, _⟩ := hSpares.row 0 n hRow
    exact ⟨n', hRow', (Node.label_eq_iff.mp hLabel).1.trans hKind⟩
  below j hPos hj := by
    by_cases hOld : j < t.size
    · rw [hSpares.parent?_eq hOld]
      exact h.below j hPos hOld
    · exact hNew j (Nat.le_of_not_lt hOld) hj
  isOpen := Nat.lt_of_lt_of_le h.isOpen hSpares.size_le
  nested c d hd e he hcd hde hce := by
    rw [hLogged] at hd he
    rw [hSpares.trail_eq (lt_size_of_mem_select he)] at hce
    rw [hSpares.trail_eq (lt_size_of_mem_select hd)]
    exact h.nested c d hd e he hcd hde hce
  cover c hc d hd hcd := by
    rw [hSpares.trail_eq h.isOpen] at hc
    rw [hLogged] at hd
    rw [hSpares.trail_eq (lt_size_of_mem_select hd)]
    exact h.cover c hc d hd hcd

/-- Filing leaves the innermost open node as it is. -/
theorem Standing.filed {S : Nat → Prop} (h : t.Standing i) (hFiled : Filed S t t') :
    t'.Standing i := by
  refine h.spares hFiled.spares hFiled.wellFormed hFiled.namesText hFiled.select_isLogged ?_
  intro j hj hj'
  obtain ⟨n, hRow⟩ := exists_row hj'
  obtain ⟨p, hp, _⟩ := hFiled.spares.fresh j n hj hRow
  exact ⟨p, by rw [parent?, hRow, Option.bind_some, hp]⟩

/-- Changes in place leave the innermost open node as it is. -/
theorem Standing.change (h : t.Standing i) {f : Node → Node} (hf : Node.Keeps f)
    (hItem : ∀ n, (f n).item = n.item) (hValue : ∀ n, (f n).value = n.value) (j : Nat) :
    (t.change j f).Standing i := by
  refine h.spares (spares_change hf hItem hValue t j) (wellFormed_change hf h.wellFormed j)
    (namesText_change hf h.namesText j) ?_ ?_
  · exact select_change hf (fun n => by rw [Node.isLogged, Node.isLogged, hf.kind]) t j
  · intro k hk hk'
    rw [size_change] at hk'
    omega

end Tree

end BuildDigest
