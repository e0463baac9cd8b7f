import BuildDigest.Proofs.Forest.Basic

/-!
# How a tree grows below an open node

While a node is the innermost open one, what is logged becomes a branch of it, and
what is reported is filed for the innermost project around it. All other branches
and all other projects stay as they are. When parts are opened and closed below
the node, the same holds of the whole stretch.

* `Tree.Stores` — a project stores what was reported on it.
* `Tree.holder`, `Tree.taskOver` — the project and the task around a node.
* `Tree.Grows` — a tree grew below a node.
* `Grows.log`, `Grows.filed` — a node is logged, something is filed.
* `Grows.trans`, `Grows.inside`, `Grows.finish` — one stretch after another, inside a new branch,
  and up to its end.
* `LaidOut.grows`, `LaidOut.finish` — forests stay laid out meanwhile.
-/

namespace BuildDigest

def Node.taskName? (n : Node) : Option String :=
  if n.kind = .task then
    match n.name with
    | .text s => some s
    | _ => none
  else none

namespace Tree

variable {t t' t'' : Tree} {i j p : Nat} {es : List Event}

-- ---------------------------------------------------------------------------
-- What a project stores
-- ---------------------------------------------------------------------------

/-- A project stores what events reported on it. -/
structure Stores (t : Tree) (i : Nat) (es : List Event) : Prop where
  project : t.isProjectAt i = true
  shelf : t.Shelf i (Filing.properties (es.flatMap (·.properties)))
    (Filing.items (es.flatMap (·.items)))

theorem Stores.exists_row (h : t.Stores i es) : ∃ n, t.row i = some n ∧ n.kind = .project := by
  obtain ⟨n, hRow, hProject⟩ := Option.any_eq_true _ _ |>.mp h.project
  exact ⟨n, hRow, of_decide_eq_true hProject⟩

theorem Stores.lt_size (h : t.Stores i es) : i < t.size := by
  obtain ⟨n, hRow, _⟩ := h.exists_row
  exact lt_size_of_row hRow

theorem Stores.owner (h : t.Stores i es) : t.owner i = some i := by
  obtain ⟨n, hRow, hKind⟩ := h.exists_row
  exact owner_of_logged hRow (by rw [hKind]; rfl)

/-- A project stores what it stored as long as nothing is filed in its own folders. -/
theorem Stores.spares {S : Nat → Prop} (h : t.Stores i es) (hSpares : Spares S t t')
    (hWf : t.WellFormed) (hWf' : t'.WellFormed) (hS : ∀ q, t.owner q = some i → ¬ S q) :
    t'.Stores i es where
  project := by rw [hSpares.isProjectAt_eq h.lt_size, h.project]
  shelf := h.shelf.spares hSpares hWf hWf' h.owner hS

theorem Stores.finishing (h : t.Stores i es) (hWf : t.WellFormed) (v : Value) (j : Nat) :
    (t.change j (finishing v)).Stores i es :=
  h.spares (spares_finishing v t j) hWf (wellFormed_change (keeps_finishing v) hWf j)
    fun _ _ => not_false

/-- Logging a node files nothing. -/
theorem Stores.add (h : t.Stores i es) (hWf : t.WellFormed) (hp : p ∈ t.select Node.isLogged)
    {n : Node} (hLogged : n.isLogged = true) : (t.add (.int p) n).Stores i es where
  project := by rw [isProjectAt_add t p n h.lt_size, h.project]
  shelf := by
    obtain ⟨r, hRow, hOpen⟩ := mem_select.mp hp
    rw [Node.isLogged, Bool.not_eq_true'] at hOpen hLogged
    exact h.shelf.add_logged hWf hRow hOpen hLogged

/-- A project that was just added stores nothing. -/
theorem stores_add_size (hWf : t.WellFormed) (hp : p < t.size) {n : Node}
    (hProject : n.isProject = true) : (t.add (.int p) n).Stores t.size [] where
  project := by
    rw [isProjectAt, row_add_size]
    exact hProject
  shelf := by
    apply (wellFormed_add hWf hp n).shelf_empty
    rw [kids_add hp, kids_size, if_neg (Nat.ne_of_gt hp)]
    rfl

/-- Filing for another project changes nothing that a project stores. -/
theorem Stores.filed_other (h : t.Stores i es) (hWf : t.WellFormed)
    (hFiled : Filed (t.Belongs j) t t') (hij : i ≠ j) : t'.Stores i es where
  project := by rw [hFiled.spares.isProjectAt_eq h.lt_size, h.project]
  shelf := h.shelf.filed_other hWf h.owner hFiled hij

/-- What an event reports on a project is stored with what was reported before. -/
theorem Stores.report (h : t.Stores i es) (hWf : t.WellFormed) (hNames : t.NamesText)
    (hFoldered : t.Foldered) (e : Event) :
    ∃ t₁ t₂, t.setProperties (.int i) e.propertiesValue = (t₁, none) ∧
      t₁.addItems (.int i) e.items = (t₂, none) ∧ Filed (t.Belongs i) t t₂ ∧ t₂.Foldered ∧
      t₂.Stores i (es ++ [e]) := by
  obtain ⟨t₁, t₂, hSet, hAdd, hFiled₁, hFiled, hShelf⟩ :=
    h.shelf.report hWf hNames h.lt_size h.owner e.properties e.items
  have hi₁ := Nat.lt_of_lt_of_le h.lt_size hFiled₁.spares.size_le
  have hFoldered₁ : t₁.Foldered := by
    have hPuts := hWf.branching.puts_setProperties h.lt_size e.propertiesValue
    rw [show t.setProperties (.int i) e.propertiesValue = (t₁, none) from hSet] at hPuts
    exact hPuts.foldered hFoldered
  have hFoldered₂ : t₂.Foldered := by
    have hPuts := hFiled₁.wellFormed.branching.puts_addItems hi₁ e.items
    rw [hAdd] at hPuts
    exact hPuts.foldered hFoldered₁
  refine ⟨t₁, t₂, hSet, hAdd, hFiled, hFoldered₂, ?_, ?_⟩
  · rw [hFiled.spares.isProjectAt_eq h.lt_size, h.project]
  · rw [List.flatMap_append, List.flatMap_singleton, List.flatMap_append, List.flatMap_singleton,
      Filing.properties, Filing.items, List.foldl_append, List.foldl_append]
    exact hShelf

/-- What a project stores it tells. -/
theorem Stores.tells (h : t.Stores i es) (hWf : t.WellFormed) (hNames : t.NamesText) :
    t.Tells i es where
  properties := h.shelf.properties_eq hWf hNames h.lt_size
  property q := by
    rw [h.shelf.property_eq hWf hNames h.lt_size, Filing.get?_properties]
  itemGroups := h.shelf.itemGroups_eq hWf hNames h.lt_size

-- ---------------------------------------------------------------------------
-- The project and the task around a node
-- ---------------------------------------------------------------------------

/-- The innermost project at or above a node. -/
def holder (t : Tree) (p : Nat) : Option Nat :=
  (p :: t.trail p).find? t.isProjectAt

/-- The project around a node is as old as the node or older. -/
theorem WellFormed.le_of_holder (hWf : t.WellFormed) (h : t.holder p = some i) : i ≤ p := by
  rcases List.mem_cons.mp (List.mem_of_find?_eq_some h) with rfl | hi
  · omega
  · have := hWf.lt_of_mem_trail hi
    omega

/-- What grows around a node leaves the project around it. -/
theorem Spares.holder_eq {S : Nat → Prop} (h : Spares S t t') (hWf : t.WellFormed)
    (hp : p < t.size) : t'.holder p = t.holder p := by
  rw [holder, holder, h.trail_eq hp]
  exact List.find?_congr fun j hj => h.isProjectAt_eq (hWf.lt_size_of_mem_open hp hj)

/-- A new node stands in the project of the node below which it comes, unless it is a project
itself. -/
theorem WellFormed.holder_add_size (hWf : t.WellFormed) (hp : p < t.size) (n : Node) :
    (t.add (.int p) n).holder t.size = if n.isProject then some t.size else t.holder p := by
  have hHere : (t.add (.int p) n).isProjectAt t.size = n.isProject := by
    rw [isProjectAt, row_add_size]
    rfl
  have hAbove := (spares_add t p n).holder_eq hWf hp
  rw [holder, trail_add_of_lt hp] at hAbove
  rw [holder, trail_add_size hp, List.find?_cons, hHere, hAbove]
  cases n.isProject <;> rfl

/-- The name of a task at an index. -/
def taskNameAt (t : Tree) (j : Nat) : Option String :=
  (t.row j).bind Node.taskName?

/-- The name of the innermost task at or above a node, or the empty text. -/
def taskOver (t : Tree) (p : Nat) : String :=
  ((p :: t.trail p).filterMap t.taskNameAt).head?.getD ""

/-- What grows around a node leaves its name as a task. -/
theorem Spares.taskNameAt_eq {S : Nat → Prop} (h : Spares S t t') (hj : j < t.size) :
    t'.taskNameAt j = t.taskNameAt j := by
  obtain ⟨n, hRow⟩ := exists_row hj
  obtain ⟨n', hRow', hLabel, _⟩ := h.row j n hRow
  obtain ⟨hKind, hName, _, _⟩ := Node.label_eq_iff.mp hLabel
  rw [taskNameAt, taskNameAt, hRow, hRow', Option.bind_some, Option.bind_some, Node.taskName?,
    Node.taskName?, hKind, hName]

/-- What grows around a node leaves the task around it. -/
theorem Spares.taskOver_eq {S : Nat → Prop} (h : Spares S t t') (hWf : t.WellFormed)
    (hp : p < t.size) : t'.taskOver p = t.taskOver p := by
  rw [taskOver, taskOver, h.trail_eq hp]
  have hNames : (p :: t.trail p).filterMap t'.taskNameAt =
      (p :: t.trail p).filterMap t.taskNameAt :=
    List.filterMap_congr fun j hj => h.taskNameAt_eq (hWf.lt_size_of_mem_open hp hj)
  rw [hNames]

/-- A new node stands in the task of the node below which it comes, unless it is a task itself. -/
theorem WellFormed.taskOver_add_size (hWf : t.WellFormed) (hp : p < t.size) (n : Node) :
    (t.add (.int p) n).taskOver t.size = n.taskName?.getD (t.taskOver p) := by
  have hHere : (t.add (.int p) n).taskNameAt t.size = n.taskName? := by
    rw [taskNameAt, row_add_size]
    rfl
  have hAbove := (spares_add t p n).taskOver_eq hWf hp
  rw [taskOver, trail_add_of_lt hp] at hAbove
  rw [taskOver, trail_add_size hp, List.filterMap_cons, hHere]
  cases n.taskName? with
  | none => exact hAbove
  | some name => rfl

-- ---------------------------------------------------------------------------
-- Growth
-- ---------------------------------------------------------------------------

/-- A tree grew while `p` was open: `p` has the new branches `js`, all the nodes that were logged
are `is`, and reports were filed for the project `held` alone. -/
structure Grows (t : Tree) (p : Nat) (held : Option Nat) (js is : List Nat) (t' : Tree) :
    Prop where
  spares : Spares (fun _ => True) t t'
  logged : t'.select Node.isLogged = t.select Node.isLogged ++ is
  row : ∀ i ∈ t.select Node.isLogged, t'.row i = t.row i
  here : t'.branches p = t.branches p ++ js
  branches : ∀ i ∈ t.select Node.isLogged, i ≠ p → t'.branches i = t.branches i
  stores : ∀ i es, held ≠ some i → t.Stores i es → t'.Stores i es

variable {held : Option Nat} {js is js' is' : List Nat}

theorem Grows.mem (h : t.Grows p held js is t') (hi : i ∈ t.select Node.isLogged) :
    i ∈ t'.select Node.isLogged := by
  rw [h.logged]
  exact List.mem_append_left is hi

/-- All the nodes that were logged are there. -/
theorem Grows.mem_new (h : t.Grows p held js is t') (hi : i ∈ is) :
    i ∈ t'.select Node.isLogged := by
  rw [h.logged]
  exact List.mem_append_right _ hi

/-- Whatever was logged stands behind all that was there. -/
theorem Grows.lt_of_mem (h : t.Grows p held js is t') (hj : j ∈ t.select Node.isLogged)
    (hi : i ∈ is) : j < i := by
  have hOrder := pairwise_select t' Node.isLogged
  rw [h.logged, List.pairwise_append] at hOrder
  exact hOrder.2.2 j hj i hi

/-- Nothing grew. -/
theorem Grows.refl (t : Tree) (p : Nat) (held : Option Nat) : t.Grows p held [] [] t where
  spares := Spares.refl _ t
  logged := (List.append_nil _).symm
  row _ _ := rfl
  here := (List.append_nil _).symm
  branches _ _ _ := rfl
  stores _ _ _ h := h

/-- What no report changed stays if reports are allowed on a project. -/
theorem Grows.weaken (h : t.Grows p none js is t') (held : Option Nat) :
    t.Grows p held js is t' where
  spares := h.spares
  logged := h.logged
  row := h.row
  here := h.here
  branches := h.branches
  stores i es _ := h.stores i es nofun

/-- Two stretches one after the other are one: branches and logged nodes are appended. -/
theorem Grows.trans (h : t.Grows p held js is t') (h' : t'.Grows p held js' is' t'') :
    t.Grows p held (js ++ js') (is ++ is') t'' where
  spares := h.spares.trans h'.spares
  logged := by rw [h'.logged, h.logged, List.append_assoc]
  row i hi := (h'.row i (h.mem hi)).trans (h.row i hi)
  here := by rw [h'.here, h.here, List.append_assoc]
  branches i hi hip := (h'.branches i (h.mem hi) hip).trans (h.branches i hi hip)
  stores i es hHeld hi := h'.stores i es hHeld (h.stores i es hHeld hi)

/-- What grows inside a new branch grows below the node of the branch. Reports are filed for the
project around, or for the branch itself. -/
theorem Grows.inside {held' : Option Nat} (h : t.Grows p none [t.size] [t.size] t')
    (h' : t'.Grows t.size held' js is t'') (hp : p ∈ t.select Node.isLogged)
    (hHeld : held' = held ∨ held' = some t.size) :
    t.Grows p held [t.size] (t.size :: is) t'' where
  spares := h.spares.trans h'.spares
  logged := by rw [h'.logged, h.logged, List.append_assoc, List.singleton_append]
  row i hi := (h'.row i (h.mem hi)).trans (h.row i hi)
  here := by
    have hpSize := lt_size_of_mem_select hp
    rw [h'.branches p (h.mem hp) (Nat.ne_of_lt hpSize), h.here]
  branches i hi hip := by
    have hiSize := lt_size_of_mem_select hi
    rw [h'.branches i (h.mem hi) (Nat.ne_of_lt hiSize), h.branches i hi hip]
  stores i es hOther hi := by
    refine h'.stores i es ?_ (h.stores i es nofun hi)
    have hiSize := hi.lt_size
    rcases hHeld with rfl | rfl
    · exact hOther
    · intro hEq
      have := Option.some.inj hEq
      omega

/-- A node that is not older than the stretch finishes. -/
theorem Grows.finish (h : t.Grows p held js is t') (hWf' : t'.WellFormed) (hj : t.size ≤ j)
    (v : Value) : t.Grows p held js is (t'.change j (finishing v)) where
  spares := h.spares.trans ((spares_finishing v t' j).mono fun _ => False.elim)
  logged := by rw [select_change (keeps_finishing v) (fun _ => rfl), h.logged]
  row i hi := by
    have hiSize := lt_size_of_mem_select hi
    have hij : i ≠ j := by omega
    rw [row_change (keeps_finishing v), if_neg hij, h.row i hi]
  here := by rw [branches_change (keeps_finishing v), h.here]
  branches i hi hip := by rw [branches_change (keeps_finishing v), h.branches i hi hip]
  stores i es hHeld hi := (h.stores i es hHeld hi).finishing hWf' v j

/-- A node is logged below the open one. -/
theorem Grows.log (hWf : t.WellFormed) (hp : p ∈ t.select Node.isLogged) {n : Node}
    (hLogged : n.isLogged = true) : t.Grows p none [t.size] [t.size] (t.add (.int p) n) where
  spares := (spares_add t p n).mono fun _ _ => trivial
  logged := by
    have hNew : (n.placed t.size (.int p)).isLogged = true := hLogged
    rw [select_add, hNew, if_pos rfl]
  row i hi := row_add_of_lt (lt_size_of_mem_select hi) _ n
  here := by rw [hWf.branches_add (lt_size_of_mem_select hp) hLogged, if_pos rfl]
  branches i hi hip := by
    rw [hWf.branches_add (lt_size_of_mem_select hp) hLogged, if_neg hip, List.append_nil]
  stores i es _ hi := hi.add hWf hp hLogged

/-- Something is filed for a project. -/
theorem Grows.filed (hWf : t.WellFormed) (hFoldered : t.Foldered) (hFoldered' : t'.Foldered)
    (hFiled : Filed (t.Belongs j) t t') (hp : p ∈ t.select Node.isLogged) :
    t.Grows p (some j) [] [] t' where
  spares := hFiled.spares.mono fun _ _ => trivial
  logged := by rw [hFiled.select_isLogged, List.append_nil]
  row i hi := by
    obtain ⟨n, hRow, hLogged⟩ := mem_select.mp hi
    rw [Node.isLogged, Bool.not_eq_true'] at hLogged
    rw [hFiled.logged i n hRow hLogged, hRow]
  here := by rw [hFiled.branches_eq hWf hFoldered hFoldered' hp, List.append_nil]
  branches i hi _ := hFiled.branches_eq hWf hFoldered hFoldered' hi
  stores i es hHeld hi := by
    refine hi.filed_other hWf hFiled ?_
    rintro rfl
    exact hHeld rfl

-- ---------------------------------------------------------------------------
-- Forests
-- ---------------------------------------------------------------------------

variable {f : Forest} {task : String} {q : Nat} {ks ls : List Nat}

/-- A forest behind the open node stays laid out when more is logged there. -/
theorem LaidOut.grows (hLaid : t.LaidOut t.Stores task q ks ls f) (h : t.Grows p held js is t')
    (hOld : ∀ i ∈ ls, i ∈ t.select Node.isLogged) (hBehind : ∀ i ∈ ls, p < i)
    (hHeld : ∀ i, held = some i → i ≤ p) : t'.LaidOut t'.Stores task q ks ls f := by
  refine hLaid.transport ?_ ?_ ?_
  · intro i hi
    exact h.row i (hOld i hi)
  · intro i hi
    have hpi := hBehind i hi
    exact h.branches i (hOld i hi) (by omega)
  · intro i hi es hStores
    refine h.stores i es ?_ hStores
    intro hEq
    have := hHeld i hEq
    have := hBehind i hi
    omega

/-- A forest stays laid out when a node finishes that is not in it. -/
theorem LaidOut.finish (hLaid : t.LaidOut t.Stores task q ks ls f) (hWf : t.WellFormed)
    (hj : ∀ i ∈ ls, i ≠ j) (v : Value) :
    (t.change j (finishing v)).LaidOut (t.change j (finishing v)).Stores task q ks ls f := by
  refine hLaid.transport ?_ ?_ ?_
  · intro i hi
    rw [row_change (keeps_finishing v), if_neg (hj i hi)]
  · intro i _
    exact branches_change (keeps_finishing v) t j i
  · intro i _ es hStores
    exact hStores.finishing hWf v j

end Tree

end BuildDigest
