import BuildDigest.Proofs.Assembly.Entries
import Mathlib.Logic.Relation

/-!
# Single edits of a tree

Whatever an event does to the tree is a row of single edits: a node is logged or
finished at an open node, or something is filed in the folders of an open project.
An edit therefore touches one node, and this node is open or stands in the folders
of a project that is.

* `Edit`, `Edits` — one edit, and edits in a row.
* `Edit.touch` — what any edit does.
* `Edits.nodes_eq` — a node that nothing open owns stays as it is.
* `Edits.unfinished` — a node that stays open is not finished.
* `edits_setProperties`, `edits_addItems` — filing is done by edits.
-/

namespace BuildDigest

/-- Whether nodes of a kind are parts of a build, which start and finish. -/
def Node.Kind.isPart : Kind → Bool
  | .project | .target | .task => true
  | .build | .folder | .nameValue | .item | .message | .commandLine => false

namespace Tree

variable {t t' : Tree} {O K : Nat → Prop} {c i p f : Nat}

def LoggedAt (t : Tree) (p : Nat) : Prop :=
  ∃ n, t.row p = some n ∧ n.kind.isFiling = false

/-- A folder of a project, under a name. -/
def SectionAt (t : Tree) (p : Nat) (name : String) (f : Nat) : Prop :=
  t.isProjectAt p = true ∧ f ∈ t.foldersNamed p (Text.lower name)

/-- A property in a folder. -/
def PropertyIn (t : Tree) (f j : Nat) : Prop :=
  ∃ n, t.row j = some n ∧ n.kind = .nameValue ∧ n.parentIndex = some f

/-- One edit of a tree. The nodes in `O` are open while it is made, those in `K` stay open. -/
inductive Edit (O K : Nat → Prop) (t : Tree) : Tree → Prop
  | root {n : Node} (hEmpty : t = empty) (hKind : n.kind = .build)
    (hName : ∃ s, n.name = .text s) : Edit O K t (t.add .null n)
  | log {p : Nat} {n : Node} (hOpen : O p) (hAt : t.LoggedAt p)
    (hLogged : n.kind.isFiling = false) (hBuild : n.kind ≠ .build)
    (hName : ∃ s, n.name = .text s) (hFinished : n.finished = .bool false) :
    Edit O K t (t.add (.int p) n)
  | finish {i : Nat} (v : Value) (hOpen : O i) (hAt : t.LoggedAt i) (hLeft : ¬ K i) :
    Edit O K t (t.change i (finishing v))
  | folder {p : Nat} {name : String} (hOpen : O p) (hProject : t.isProjectAt p = true)
    (hName : name = propertiesFolder ∨ name = itemsFolder) :
    Edit O K t (t.add (.int p) (folderNode name))
  | property {p f : Nat} (name : String) (value : Value) (hOpen : O p)
    (hAt : t.SectionAt p propertiesFolder f) :
    Edit O K t (t.add (.int f) { kind := .nameValue, name := .text name, value })
  | value {p f j : Nat} (value : Value) (hOpen : O p) (hAt : t.SectionAt p propertiesFolder f)
    (hIn : t.PropertyIn f j) : Edit O K t (t.change j fun n => { n with value })
  | typeFolder {p f : Nat} (name : String) (hOpen : O p) (hAt : t.SectionAt p itemsFolder f) :
    Edit O K t (t.add (.int f) (folderNode name))
  | item {p f g : Nat} {key : String} (item : Item) (hOpen : O p)
    (hAt : t.SectionAt p itemsFolder f) (hIn : g ∈ t.foldersNamed f key) :
    Edit O K t (t.add (.int g) (itemNode item))

/-- Edits in a row. -/
abbrev Edits (O K : Nat → Prop) : Tree → Tree → Prop :=
  Relation.ReflTransGen (Edit O K)

-- ---------------------------------------------------------------------------
-- Where edits are made
-- ---------------------------------------------------------------------------

theorem LoggedAt.owner (h : t.LoggedAt p) : t.owner p = some p := by
  obtain ⟨n, hRow, hKind⟩ := h
  exact owner_of_logged hRow hKind

theorem owner_of_isProjectAt (h : t.isProjectAt p = true) : t.owner p = some p := by
  obtain ⟨n, hRow, hKind⟩ := isProjectAt_iff.mp h
  exact owner_of_logged hRow (by rw [hKind]; rfl)

/-- A project owns its folders. -/
theorem SectionAt.owner (h : t.SectionAt p name f) (hWf : t.WellFormed) :
    t.owner f = some p := by
  rw [hWf.owner_of_mem_foldersNamed h.2, owner_of_isProjectAt h.1]

theorem PropertyIn.parent? {j : Nat} (h : t.PropertyIn f j) : t.parent? j = some f := by
  obtain ⟨n, hRow, _, hParent⟩ := h
  rw [Tree.parent?, hRow, Option.bind_some, hParent]

/-- What owns a folder owns the properties in it. -/
theorem PropertyIn.owner {j : Nat} (h : t.PropertyIn f j) (hWf : t.WellFormed) :
    t.owner j = t.owner f := by
  have hParent := h.parent?
  obtain ⟨n, hRow, hKind, _⟩ := h
  exact hWf.owner_of_filing hRow (by rw [hKind]; rfl) hParent

/-- What an edit does: the root comes, or one node comes or changes, for which a node in `O` is
the owner. -/
inductive Touch (O K : Nat → Prop) (t : Tree) : Tree → Prop
  | root {n : Node} (hEmpty : t = empty) : Touch O K t (t.add .null n)
  | add {p q : Nat} {n : Node} (hOpen : O p) (hOwner : t.owner q = some p)
    (hFinished : n.finished = .bool false) : Touch O K t (t.add (.int q) n)
  | change {p j : Nat} {g : Node → Node} (hOpen : O p) (hOwner : t.owner j = some p)
    (hKeeps : Node.Keeps g) (hFinished : K j → ∀ n, (g n).finished = n.finished) :
    Touch O K t (t.change j g)

/-- An edit touches the node it is made at, and the owner of that node is open. -/
theorem Edit.touch (h : Edit O K t t') (hWf : t.WellFormed) : Touch O K t t' := by
  cases h with
  | root hEmpty => exact .root hEmpty
  | log hOpen hAt _ _ _ hFinished => exact .add hOpen hAt.owner hFinished
  | finish v hOpen hAt hLeft =>
    exact .change hOpen hAt.owner (keeps_finishing v) fun hK => absurd hK hLeft
  | folder hOpen hProject => exact .add hOpen (owner_of_isProjectAt hProject) rfl
  | property _ _ hOpen hAt => exact .add hOpen (hAt.owner hWf) rfl
  | value v hOpen hAt hIn =>
    exact .change hOpen ((hIn.owner hWf).trans (hAt.owner hWf)) (keeps_setValue v) fun _ _ => rfl
  | typeFolder _ hOpen hAt => exact .add hOpen (hAt.owner hWf) rfl
  | item _ hOpen hAt hIn =>
    exact .add hOpen ((hWf.owner_of_mem_foldersNamed hIn).trans (hAt.owner hWf)) rfl

-- ---------------------------------------------------------------------------
-- What one edit leaves alone
-- ---------------------------------------------------------------------------

theorem Edit.wellFormed (h : Edit O K t t') (hWf : t.WellFormed) : t'.WellFormed := by
  cases h.touch hWf with
  | root => exact hWf.push_root _
  | add _ hOwner => exact wellFormed_add hWf (lt_size_of_owner hOwner) _
  | change _ _ hKeeps => exact wellFormed_change hKeeps hWf _

theorem Edit.size_le (h : Edit O K t t') (hWf : t.WellFormed) : t.size ≤ t'.size := by
  cases h.touch hWf with
  | root | add =>
    rw [size_add]
    omega
  | change => rw [size_change]

/-- After an edit, names are texts still. -/
theorem Edit.namesText (h : Edit O K t t') (hNames : t.NamesText) : t'.NamesText := by
  cases h with
  | root _ _ hName => exact namesText_add hNames _ hName
  | log _ _ _ _ hName => exact namesText_add hNames _ hName
  | finish v => exact namesText_change (keeps_finishing v) hNames _
  | value v => exact namesText_change (keeps_setValue v) hNames _
  | folder | property | typeFolder | item => exact namesText_add hNames _ ⟨_, rfl⟩

/-- Nodes that are there keep their labels. -/
theorem Edit.spares (h : Edit O K t t') (hPos : 0 < t.size) : Spares (fun _ => True) t t' := by
  have hAdd (q : Nat) (n : Node) : Spares (fun _ => True) t (t.add (.int q) n) :=
    (spares_add t q n).mono fun _ _ => trivial
  cases h with
  | root hEmpty =>
    rw [hEmpty] at hPos
    exact absurd hPos (Nat.lt_irrefl 0)
  | finish v => exact (spares_finishing v t _).mono fun _ _ => trivial
  | value v _ _ hIn => exact (spares_setValue hIn.parent? v).mono fun _ _ => trivial
  | log | folder | property | typeFolder | item => exact hAdd _ _

/-- A node that comes below one node leaves every other node as it is. -/
theorem nodes_add {q : Nat} (hc : c < t.size) (hq : q < t.size) (hne : c ≠ q) (n : Node) :
    (t.add (.int q) n).nodes[c]? = t.nodes[c]? := by
  have hNew : ¬ c = t.nodes.size := Nat.ne_of_lt hc
  rw [add_int hq, attach, change, Array.getElem?_modify, if_neg (Ne.symm hne), push,
    Array.getElem?_push, if_neg hNew]

theorem nodes_change {j : Nat} (hne : c ≠ j) (g : Node → Node) :
    (t.change j g).nodes[c]? = t.nodes[c]? := by
  rw [change, Array.getElem?_modify, if_neg (Ne.symm hne)]

/-- A node that nothing in `O` owns stays as it is, its children included. -/
theorem Edit.nodes_eq (h : Edit O K t t') (hWf : t.WellFormed) (hc : c < t.size)
    (hOwn : ∀ p, t.owner c = some p → ¬ O p) : t'.nodes[c]? = t.nodes[c]? := by
  cases h.touch hWf with
  | root hEmpty =>
    rw [hEmpty] at hc
    exact absurd hc (Nat.not_lt_zero c)
  | @add p q n hOpen hOwner _ =>
    have hne : c ≠ q := by
      rintro rfl
      exact hOwn p hOwner hOpen
    exact nodes_add hc (lt_size_of_owner hOwner) hne n
  | @change p j g hOpen hOwner _ _ =>
    have hne : c ≠ j := by
      rintro rfl
      exact hOwn p hOwner hOpen
    exact nodes_change hne g

/-- Not finished, as far as the node is there. -/
def Unfinished (t : Tree) (j : Nat) : Prop :=
  ∀ n, t.row j = some n → n.finished = .bool false

/-- A node that stays open is not finished by an edit: an edit finishes only what closes. -/
theorem Edit.unfinished {j : Nat} (h : Edit O K t t') (hWf : t.WellFormed) (hj : K j)
    (hRoot : j ≠ 0) (hBefore : t.Unfinished j) : t'.Unfinished j := by
  intro m hRow
  cases h.touch hWf with
  | root hEmpty =>
    -- only the root is there
    have := lt_size_of_row hRow
    rw [size_add, hEmpty] at this
    exact absurd (Nat.lt_one_iff.mp this) hRoot
  | add _ _ hFinished =>
    rw [row_add] at hRow
    split at hRow
    · cases hRow
      exact hFinished
    · exact hBefore m hRow
  | change _ _ hKeeps hFinished =>
    rw [row_change hKeeps] at hRow
    split at hRow
    · next hEq =>
      obtain ⟨n, hn, rfl⟩ := Option.map_eq_some_iff.mp hRow
      rw [hFinished (hEq ▸ hj)]
      exact hBefore n hn
    · exact hBefore m hRow

-- ---------------------------------------------------------------------------
-- Edits in a row
-- ---------------------------------------------------------------------------

/-- An edit at some nodes is an edit at more. -/
theorem Edit.mono {O' : Nat → Prop} (h : Edit O K t t') (hO : ∀ p, O p → O' p) :
    Edit O' K t t' := by
  cases h with
  | root hEmpty hKind hName => exact .root hEmpty hKind hName
  | log hOpen hAt hLogged hBuild hName hFinished =>
    exact .log (hO _ hOpen) hAt hLogged hBuild hName hFinished
  | finish v hOpen hAt hLeft => exact .finish v (hO _ hOpen) hAt hLeft
  | folder hOpen hProject hName => exact .folder (hO _ hOpen) hProject hName
  | property name value hOpen hAt => exact .property name value (hO _ hOpen) hAt
  | value v hOpen hAt hIn => exact .value v (hO _ hOpen) hAt hIn
  | typeFolder name hOpen hAt => exact .typeFolder name (hO _ hOpen) hAt
  | item item hOpen hAt hIn => exact .item item (hO _ hOpen) hAt hIn

theorem Edits.mono {O' : Nat → Prop} (h : Edits O K t t') (hO : ∀ p, O p → O' p) :
    Edits O' K t t' := by
  induction h with
  | refl => exact .refl
  | tail _ hEdit ih => exact ih.tail (hEdit.mono hO)

theorem Edits.wellFormed (h : Edits O K t t') (hWf : t.WellFormed) : t'.WellFormed := by
  induction h with
  | refl => exact hWf
  | tail _ hEdit ih => exact hEdit.wellFormed ih

theorem Edits.size_le (h : Edits O K t t') (hWf : t.WellFormed) : t.size ≤ t'.size := by
  induction h with
  | refl => exact Nat.le_refl _
  | tail hEdits hEdit ih => exact Nat.le_trans ih (hEdit.size_le (Edits.wellFormed hEdits hWf))

theorem Edits.namesText (h : Edits O K t t') (hNames : t.NamesText) : t'.NamesText := by
  induction h with
  | refl => exact hNames
  | tail _ hEdit ih => exact hEdit.namesText ih

/-- Edits change of earlier nodes only the list of children and how they finished. -/
theorem Edits.spares (h : Edits O K t t') (hWf : t.WellFormed) (hPos : 0 < t.size) :
    Spares (fun _ => True) t t' := by
  induction h with
  | refl => exact Spares.refl _ t
  | tail hEdits hEdit ih =>
    exact ih.trans (hEdit.spares (Nat.lt_of_lt_of_le hPos (Edits.size_le hEdits hWf)))

/-- A node that nothing in `O` owns stays as it is through all edits. -/
theorem Edits.nodes_eq (h : Edits O K t t') (hWf : t.WellFormed) (hc : c < t.size)
    (hOwn : ∀ p, t.owner c = some p → ¬ O p) : t'.nodes[c]? = t.nodes[c]? := by
  have hPos : 0 < t.size := Nat.zero_lt_of_lt hc
  induction h with
  | refl => rfl
  | @tail t₁ t₂ hEdits hEdit ih =>
    have hWf₁ := Edits.wellFormed hEdits hWf
    have hc₁ := Nat.lt_of_lt_of_le hc (Edits.size_le hEdits hWf)
    -- the owner is the one from the start
    have hOwner : t₁.owner c = t.owner c := (Edits.spares hEdits hWf hPos).owner_eq hWf hc
    exact (hEdit.nodes_eq hWf₁ hc₁ (by rwa [hOwner])).trans ih

/-- A node that stays open is not finished by edits in a row. -/
theorem Edits.unfinished {j : Nat} (h : Edits O K t t') (hWf : t.WellFormed) (hj : K j)
    (hRoot : j ≠ 0) (hBefore : t.Unfinished j) : t'.Unfinished j := by
  induction h with
  | refl => exact hBefore
  | tail hEdits hEdit ih => exact hEdit.unfinished (Edits.wellFormed hEdits hWf) hj hRoot ih

-- ---------------------------------------------------------------------------
-- Filing
-- ---------------------------------------------------------------------------

/-- A folder that is there stays where it is, under its name. -/
theorem mem_foldersNamed_of_spares {S : Nat → Prop} {key : String} (h : Spares S t t')
    (hf : f ∈ t.foldersNamed p key) : f ∈ t'.foldersNamed p key := by
  obtain ⟨n, hRow, hParent, hNamed⟩ := mem_foldersNamed.mp hf
  obtain ⟨n', hRow', hLabel, _⟩ := h.row f n hRow
  rw [mem_foldersNamed]
  refine ⟨n', hRow', (Node.label_eq_iff.mp hLabel).2.2.1.trans hParent, ?_⟩
  rw [Node.isNamed_congr hLabel, hNamed]

theorem SectionAt.lt_size {name : String} (h : t.SectionAt p name f) : f < t.size :=
  lt_size_of_mem_select h.2

theorem SectionAt.spares {S : Nat → Prop} {name : String} (h : t.SectionAt p name f)
    (hSpares : Spares S t t') : t'.SectionAt p name f := by
  refine ⟨?_, mem_foldersNamed_of_spares hSpares h.2⟩
  rw [hSpares.isProjectAt_eq (lt_size_of_isProjectAt h.1), h.1]

/-- A property that is there stays in its folder. -/
theorem PropertyIn.spares {S : Nat → Prop} {j : Nat} (h : t.PropertyIn f j)
    (hSpares : Spares S t t') : t'.PropertyIn f j := by
  obtain ⟨n, hRow, hKind, hParent⟩ := h
  obtain ⟨n', hRow', hLabel, _⟩ := hSpares.row j n hRow
  obtain ⟨hKind', _, hParent', _⟩ := Node.label_eq_iff.mp hLabel
  exact ⟨n', hRow', hKind'.trans hKind, hParent'.trans hParent⟩

/-- The folder that is put up for a name is there, or one edit makes it. -/
theorem WellFormed.edits_ensureFolder (hWf : t.WellFormed) (hNames : t.NamesText)
    (hi : i < t.size) {name : String} (hMake : Edit O K t (t.add (.int i) (folderNode name))) :
    ∃ t' f, t.ensureFolder (.int i) name = .ok (t', f) ∧ Edits O K t t' ∧
      f ∈ t'.foldersNamed i (Text.lower name) := by
  cases hHead : (t.foldersNamed i (Text.lower name)).head? with
  | some f =>
    exact ⟨t, f, hWf.ensureFolder_of_some hNames hi hHead, .refl, List.mem_of_head? hHead⟩
  | none =>
    refine ⟨_, _, hWf.ensureFolder_of_none hNames hi hHead, .single hMake, ?_⟩
    rw [foldersNamed_add, isNamed_folder, if_pos ⟨rfl, decide_eq_true rfl⟩]
    exact List.mem_append_right _ (List.mem_singleton_self _)

/-- Writing properties into the folder of an open project is done by edits. The induction is on the
properties, and those known by name stand in the folder all along. -/
theorem edits_writeProperties (hOpen : O p) (hAt : t.SectionAt p propertiesFolder f)
    {known : List (String × Nat)} (hKnown : ∀ e ∈ known, t.PropertyIn f e.2)
    (ps : List (String × Value)) : Edits O K t (writeProperties f t known ps) := by
  induction ps generalizing t known with
  | nil => exact .refl
  | cons q rest ih =>
    rw [writeProperties]
    split
    · next j hLookup =>
      -- the name is known, and its node takes the value
      obtain ⟨before, after, rfl, _⟩ := List.lookup_eq_some_iff.mp hLookup
      have hIn : t.PropertyIn f j := hKnown _ (List.mem_append_right _ (List.mem_cons_self ..))
      have hSpares := spares_setValue hIn.parent? q.2
      refine .head (.value q.2 hOpen hAt hIn) (ih (hAt.spares hSpares) ?_)
      exact fun e he => (hKnown e he).spares hSpares
    · have hSpares := spares_add t f { kind := .nameValue, name := .text q.1, value := q.2 }
      refine .head (.property q.1 q.2 hOpen hAt) (ih (hAt.spares hSpares) ?_)
      rw [List.forall_mem_cons]
      refine ⟨⟨_, row_add_size t _ _, rfl, rfl⟩, ?_⟩
      exact fun e he => (hKnown e he).spares hSpares

/-- Setting properties is done by edits: the folder comes first if there is none, and then the
properties are written into it. -/
theorem edits_setProperties (hWf : t.WellFormed) (hNames : t.NamesText) (hOpen : O i)
    (hProject : t.isProjectAt i = true) (v : Value) :
    Edits O K t (t.setProperties (.int i) v).1 := by
  have hi := lt_size_of_isProjectAt hProject
  obtain ⟨t₁, f, hEnsure, hEdits, hf⟩ :=
    hWf.edits_ensureFolder hNames hi (.folder hOpen hProject (.inl rfl))
  unfold setProperties
  rw [hEnsure]
  split
  · dsimp only
    split
    · exact hEdits
    · next known hIndex =>
      split
      · -- what is known when the writing starts are the properties in the folder
        have hWf₁ := Edits.wellFormed hEdits hWf
        have hSpares := Edits.spares hEdits hWf (Nat.zero_lt_of_lt hi)
        have hProject₁ : t₁.isProjectAt i = true := by rw [hSpares.isProjectAt_eq hi, hProject]
        refine hEdits.trans (edits_writeProperties hOpen ⟨hProject₁, hf⟩ ?_ _)
        refine propertyIndex_forall hIndex nofun fun n hn hKind => ?_
        obtain ⟨m, hm⟩ := exists_node (lt_size_of_mem_select hf)
        simp only [childrenAt, hm, nodesAt, List.mem_filterMap] at hn
        obtain ⟨c, hc, hn⟩ := hn
        have hParent := hWf₁.mem_kids.mp (kids_of_nodes hm ▸ hc)
        rw [parent?_eq_of_nodes hn] at hParent
        rw [hWf₁.index_of_nodes hn]
        exact ⟨n.bare, row_eq_some_iff.mpr ⟨n, hn, rfl⟩, hKind, hParent⟩
      · exact hEdits
  · exact .refl

/-- Filing items is done by edits: for each item the folder of its type comes first if there is
none. -/
theorem edits_fileItems (hWf : t.WellFormed) (hNames : t.NamesText) (hOpen : O p)
    (hAt : t.SectionAt p itemsFolder f) (items : List Item) :
    Edits O K t (fileItems f t items).1 := by
  induction items generalizing t with
  | nil => exact .refl
  | cons it rest ih =>
    have hPos := Nat.zero_lt_of_lt hAt.lt_size
    obtain ⟨t₁, g, hEnsure, hEdits, hg⟩ := hWf.edits_ensureFolder (K := K) hNames hAt.lt_size
      (.typeFolder it.itemType hOpen hAt)
    have hAt₁ := hAt.spares (Edits.spares hEdits hWf hPos)
    have hItem : Edit O K t₁ (t₁.add (.int g) (itemNode it)) := .item it hOpen hAt₁ hg
    have hWf₁ := Edits.wellFormed hEdits hWf
    rw [fileItems, hEnsure]
    exact (hEdits.tail hItem).trans (ih (hItem.wellFormed hWf₁)
      (hItem.namesText (Edits.namesText hEdits hNames)) (hAt₁.spares (spares_add t₁ g _)))

/-- Adding items is done by edits. -/
theorem edits_addItems (hWf : t.WellFormed) (hNames : t.NamesText) (hOpen : O i)
    (hProject : t.isProjectAt i = true) (items : List Item) :
    Edits O K t (t.addItems (.int i) items).1 := by
  have hi := lt_size_of_isProjectAt hProject
  obtain ⟨t₁, f, hEnsure, hEdits, hf⟩ :=
    hWf.edits_ensureFolder (K := K) hNames hi (.folder hOpen hProject (.inr rfl))
  unfold addItems
  rw [hEnsure]
  split
  · exact .refl
  · have hSpares := Edits.spares hEdits hWf (Nat.zero_lt_of_lt hi)
    have hProject₁ : t₁.isProjectAt i = true := by rw [hSpares.isProjectAt_eq hi, hProject]
    exact hEdits.trans (edits_fileItems (Edits.wellFormed hEdits hWf)
      (Edits.namesText hEdits hNames) hOpen ⟨hProject₁, hf⟩ items)

end Tree

end BuildDigest
