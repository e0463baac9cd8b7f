import BuildDigest.Proofs.Assembly.Represents
import BuildDigest.Proofs.Folders.Lookup

/-!
# What was reported is read

A project is added to a tree, and then properties and items are reported on it and
on other projects, in any order, while nodes are added elsewhere. What is read of
the project at any moment is what was reported on it so far, however the tree was
made before and whatever the names are.

* `Tree.Act`, `Tree.actAll` — reports and new nodes, one after the other.
* `Reported` — the folders of a project hold what was reported; `Reported.step`, `Reported.all`.
* `Made.reads_properties` — the last value of each property is read, under its first name.
* `Made.reads_items` — the items are read in groups, none lost and none doubled.
-/

namespace BuildDigest.Tree

variable {t t' : Tree} {S F : Nat → Prop} {i j : Nat}

-- ---------------------------------------------------------------------------
-- Acts
-- ---------------------------------------------------------------------------

/-- What happens to a tree: properties or items of a node are reported, or a node is added. -/
inductive Act
  | setProperties (node : Nat) (fields : List (String × String))
  | addItems (node : Nat) (items : List Item)
  | addNode (parent : Value) (n : Node)

namespace Act

def run (t : Tree) : Act → Tree × Option Fault
  | .setProperties j fields =>
    t.setProperties (.int j) (.object (fields.map fun p => (p.1, .text p.2)))
  | .addItems j items => t.addItems (.int j) items
  | .addNode parent n => t.addNode parent n

/-- The node on which an act reports. -/
def subject? : Act → Option Nat
  | .setProperties j _ | .addItems j _ => some j
  | .addNode .. => none

/-- The properties that an act reports on a node. -/
def propertiesOf (i : Nat) : Act → List (String × String)
  | .setProperties j fields => if j = i then fields else []
  | .addItems .. | .addNode .. => []

/-- The items that an act reports on a node. -/
def itemsOf (i : Nat) : Act → List Item
  | .addItems j items => if j = i then items else []
  | .setProperties .. | .addNode .. => []

/-- Reports are on projects, and a node that is added is no folder and does not come into the
folders of a node. -/
def Allowed (i : Nat) (t : Tree) : Act → Prop
  | .setProperties j _ | .addItems j _ => t.isProjectAt j = true
  | .addNode parent n => n.kind ≠ .folder ∧ ∀ p ∈ t.host? parent, p ∉ t.ownFolders i

/-- A report on another node is none on this one. -/
theorem nothing_of_ne {act : Act} {j : Nat} (hSubject : act.subject? = some j) (hij : i ≠ j) :
    act.propertiesOf i = [] ∧ act.itemsOf i = [] := by
  cases act with
  | setProperties k fields =>
    obtain rfl : k = j := Option.some.inj hSubject
    exact ⟨if_neg (Ne.symm hij), rfl⟩
  | addItems k items =>
    obtain rfl : k = j := Option.some.inj hSubject
    exact ⟨rfl, if_neg (Ne.symm hij)⟩
  | addNode => cases hSubject

instance (i : Nat) (t : Tree) : (act : Act) → Decidable (act.Allowed i t)
  | .setProperties .. | .addItems .. => inferInstanceAs (Decidable (_ = true))
  | .addNode .. => inferInstanceAs (Decidable (_ ∧ _))

end Act

def actAll (t : Tree) (acts : List Act) : Tree :=
  acts.foldl (fun t act => (act.run t).1) t

def AllAllowed (i : Nat) : Tree → List Act → Prop
  | _, [] => True
  | t, act :: acts => act.Allowed i t ∧ AllAllowed i (act.run t).1 acts

instance decidableAllAllowed (i : Nat) : (t : Tree) → (acts : List Act) →
    Decidable (AllAllowed i t acts)
  | _, [] => .isTrue trivial
  | t, act :: acts =>
    have := decidableAllAllowed i (act.run t).1 acts
    inferInstanceAs (Decidable (act.Allowed i t ∧ AllAllowed i (act.run t).1 acts))

-- ---------------------------------------------------------------------------
-- Projects
-- ---------------------------------------------------------------------------

theorem isFolderAt_of_isProjectAt (h : t.isProjectAt j = true) : t.isFolderAt j = false := by
  obtain ⟨n, hRow, hKind⟩ := isProjectAt_iff.mp h
  rw [isFolderAt, hRow, Option.any_some, hKind]
  rfl

/-- Projects stay projects. -/
theorem Leaves.isProjectAt (h : Leaves F t t') (hj : t.isProjectAt j = true) :
    t'.isProjectAt j = true := by
  obtain ⟨n, hRow, hKind⟩ := isProjectAt_iff.mp hj
  obtain ⟨n', hRow', hLabel⟩ := h.label j n hRow
  exact isProjectAt_iff.mpr ⟨n', hRow', (Node.label_eq_iff.mp hLabel).1.trans hKind⟩

/-- A report is worked in by putting things inside the node that is reported on. -/
theorem Linked.puts_run (h : t.Linked) (hj : j < t.size) {act : Act}
    (hSubject : act.subject? = some j) : Puts (t.Inside j) t (act.run t).1 := by
  cases act with
  | setProperties k fields =>
    obtain rfl : k = j := Option.some.inj hSubject
    exact h.puts_setProperties hj _
  | addItems k items =>
    obtain rfl : k = j := Option.some.inj hSubject
    exact h.puts_addItems hj _
  | addNode => cases hSubject

/-- Reports and new nodes are steps in making a tree, so what holds of all trees that are made holds
between any of them. -/
theorem Made.actAll (h : t.Made) {acts : List Act} (hActs : AllAllowed i t acts) :
    (t.actAll acts).Made := by
  induction acts generalizing t with
  | nil => exact h
  | cons act acts ih =>
    refine ih ?_ hActs.2
    have hReport {j : Nat} (hSubject : act.subject? = some j) (hj : t.isProjectAt j = true) :
        (act.run t).1.Made :=
      (h.linked.puts_run (lt_size_of_isProjectAt hj) hSubject).made h
    cases act with
    | setProperties j fields => exact hReport rfl hActs.1
    | addItems j items => exact hReport rfl hActs.1
    | addNode parent n => exact h.add parent n

/-- A report on a project does not change what is read of any other node, be it a project or not;
only the folders of the project itself are not spoken of. -/
def Secluded (t : Tree) : Prop :=
  ∀ (act : Act) (j : Nat), act.subject? = some j → t.isProjectAt j = true →
    ∀ i < t.size, i ≠ j → i ∉ t.ownFolders j → t.SameReadings (act.run t).1 i

/-- In a linked tree a report on a project does not change what is read of other nodes, because it
stays inside the project. -/
theorem Linked.secluded (h : t.Linked) : t.Secluded := by
  intro act j hSubject hj i hi hij hOut
  exact h.sameReadings_of_puts (h.puts_run (lt_size_of_isProjectAt hj) hSubject)
    (isFolderAt_of_isProjectAt hj) hi hij hOut

-- ---------------------------------------------------------------------------
-- The folders hold what was reported
-- ---------------------------------------------------------------------------

/-- The folders of a project hold the properties and the items that were reported on it. -/
structure Reported (t : Tree) (i : Nat) (ps : List (String × String)) (items : List Item) :
    Prop where
  room : t.Room i
  project : t.isProjectAt i = true
  tables : t.Tables i (Filing.properties ps) (Filing.items items)

variable {ps : List (String × String)} {items : List Item}

/-- Nothing is reported on a new project. -/
theorem Linked.reported_add (h : t.Linked) (parent : Value) {n : Node} (hKind : n.kind = .project) :
    (t.add parent n).Reported t.size [] [] where
  room := h.room_add parent (by rw [hKind]; nofun)
  project := isProjectAt_iff.mpr ⟨_, row_add_size t parent n, hKind⟩
  tables := by
    refine tables_empty fun key => ?_
    have hOld : t.foldersIn t.size key = [] := by rw [foldersIn, kids_size, List.filter_nil]
    rw [h.foldersIn_add, hOld, Node.isNamed, hKind]
    simp

/-- A report on another project leaves the folders of a project alone. -/
theorem Reported.puts_other (h : t.Reported i ps items) (hPuts : Puts (t.Inside j) t t')
    (hj : t.isProjectAt j = true) (hij : i ≠ j) : t'.Reported i ps items := by
  have hLinked := h.room.linked
  have hLeaves := hPuts.leaves hLinked
  have hFolder := isFolderAt_of_isProjectAt h.project
  have hOut := not_inside_of_not_mem h.room.lt_size hij (not_mem_ownFolders hFolder)
  refine ⟨h.room.puts hPuts, hLeaves.isProjectAt h.project,
    h.tables.leaves hLeaves ?_ fun p hp => ?_⟩
  · exact hLeaves.foldersIn_eq hLinked ⟨h.room.lt_size, hOut⟩
  · exact ⟨h.room.lt_size_of_mem_ownFolders hp, hLinked.not_inside_of_mem_ownFolders
      (isFolderAt_of_isProjectAt hj) hij (not_mem_folderKids hFolder) hp⟩

/-- A report on a node is added to what its folders hold, without fault. -/
theorem Reported.run_eq (h : t.Reported i ps items) {act : Act} (hSubject : act.subject? = some i) :
    ∃ t', act.run t = (t', none) ∧ t'.Tables i (Filing.properties (ps ++ act.propertiesOf i))
      (Filing.items (items ++ act.itemsOf i)) := by
  cases act with
  | setProperties j fields =>
    obtain rfl : j = i := Option.some.inj hSubject
    obtain ⟨t', hSet, hTables⟩ := h.tables.setProperties h.room fields
    refine ⟨t', hSet, ?_⟩
    rwa [Act.propertiesOf, if_pos rfl, Act.itemsOf, List.append_nil, Filing.properties,
      List.foldl_append]
  | addItems j more =>
    obtain rfl : j = i := Option.some.inj hSubject
    obtain ⟨t', hAdd, hTables⟩ := h.tables.addItems h.room more
    refine ⟨t', hAdd, ?_⟩
    rwa [Act.itemsOf, if_pos rfl, Act.propertiesOf, List.append_nil, Filing.items,
      List.foldl_append]
  | addNode => cases hSubject

theorem Reported.no_fault (h : t.Reported i ps items) {act : Act}
    (hSubject : act.subject? = some i) : (act.run t).2 = none := by
  obtain ⟨t', hRun, -⟩ := h.run_eq hSubject
  rw [hRun]

/-- A report on a project, this one or another, comes to what the folders of this one hold. -/
theorem Reported.report (h : t.Reported i ps items) {act : Act} (hSubject : act.subject? = some j)
    (hj : t.isProjectAt j = true) :
    (act.run t).1.Reported i (ps ++ act.propertiesOf i) (items ++ act.itemsOf i) := by
  have hPuts := h.room.linked.puts_run (lt_size_of_isProjectAt hj) hSubject
  by_cases hij : i = j
  · subst hij
    obtain ⟨t', hRun, hTables⟩ := h.run_eq hSubject
    rw [hRun] at hPuts ⊢
    exact ⟨h.room.puts hPuts, (hPuts.leaves h.room.linked).isProjectAt hj, hTables⟩
  · obtain ⟨hProperties, hItems⟩ := Act.nothing_of_ne hSubject hij
    rw [hProperties, hItems, List.append_nil, List.append_nil]
    exact h.puts_other hPuts hj hij

/-- What an act reports on a project comes to what its folders hold. -/
theorem Reported.step (h : t.Reported i ps items) {act : Act} (hAct : act.Allowed i t) :
    (act.run t).1.Reported i (ps ++ act.propertiesOf i) (items ++ act.itemsOf i) := by
  cases act with
  | setProperties j fields => exact h.report (j := j) rfl hAct
  | addItems j more => exact h.report (j := j) rfl hAct
  | addNode parent n =>
    obtain ⟨hKind, hHost⟩ := hAct
    rw [Act.propertiesOf, Act.itemsOf, List.append_nil, List.append_nil]
    exact ⟨h.room.add parent hKind, (leaves_add t parent n).isProjectAt h.project,
      h.tables.add h.room.linked hKind hHost⟩

/-- At the end of acts the folders of a project hold all that they reported on it. -/
theorem Reported.all (h : t.Reported i ps items) {acts : List Act} (hActs : AllAllowed i t acts) :
    (t.actAll acts).Reported i (ps ++ acts.flatMap (Act.propertiesOf i))
      (items ++ acts.flatMap (Act.itemsOf i)) := by
  induction acts generalizing t ps items with
  | nil =>
    rw [List.flatMap_nil, List.flatMap_nil, List.append_nil, List.append_nil]
    exact h
  | cons act acts ih =>
    rw [List.flatMap_cons, List.flatMap_cons, ← List.append_assoc, ← List.append_assoc]
    exact ih (h.step hActs.1) hActs.2

/-- After acts on a tree with a new project the folders of the project hold what they reported. -/
theorem Made.reported_all (h : t.Made) {parent : Value} {n : Node} (hKind : n.kind = .project)
    {acts : List Act} (hActs : AllAllowed t.size (t.add parent n) acts) :
    ((t.add parent n).actAll acts).Reported t.size (acts.flatMap (Act.propertiesOf t.size))
      (acts.flatMap (Act.itemsOf t.size)) :=
  (h.linked.reported_add parent hKind).all hActs

-- ---------------------------------------------------------------------------
-- What is read
-- ---------------------------------------------------------------------------

/-- What is read of the properties of a node is what was reported: under any spelling of a name its
last value, and all names once, in the order and in the spelling of their first reports. -/
structure ReadsProperties (t : Tree) (i : Nat) (ps : List (String × String)) : Prop where
  property : ∀ q, t.property (.int i) (.text q) = .ok (.ofText? (Filing.lastValue ps q))
  properties : t.properties (.int i) =
    .ok ((Filing.listed ps).map fun p => (.text p.1, .text p.2))
  once : ((Filing.listed ps).map fun p => Text.lower p.1) =
    (ps.map fun p => Text.lower p.1).eraseDups
  /-- A single property that is read is the one that is listed. -/
  agree : ∃ pairs : List (String × String),
    t.properties (.int i) = .ok (pairs.map fun p => (.text p.1, .text p.2)) ∧
      ∀ q, t.property (.int i) (.text q) =
        .ok (.ofText? ((pairs.find? fun p => Text.lower p.1 = Text.lower q).map (·.2)))

/-- What the folders hold of the properties is what is read. -/
theorem Reported.readsProperties (h : t.Reported i ps items) : t.ReadsProperties i ps := by
  have hProperty (q : String) :
      t.property (.int i) (.text q) = .ok (.ofText? (Filing.lastValue ps q)) := by
    rw [h.tables.property_eq h.room, Filing.get?_properties]
  have hProperties : t.properties (.int i) =
      .ok ((Filing.listed ps).map fun p => (.text p.1, .text p.2)) := by
    rw [h.tables.properties_eq h.room, Filing.values_properties]
  refine ⟨hProperty, hProperties, Filing.map_lower_listed ps, Filing.listed ps, hProperties,
    fun q => ?_⟩
  rw [hProperty, ← Filing.values_properties, (Filing.folded_properties ps).find?_values,
    Filing.get?_properties]

/-- What is read of the items of a node is what was reported: one group for each type, in the order
and in the spelling of the first reports, each with the items of the type in their order, and
altogether every item as often as it was reported. -/
structure ReadsItems (t : Tree) (i : Nat) (items : List Item) : Prop where
  itemGroups : t.itemGroups (.int i) =
    .ok ((Filing.grouped items).map fun g => (.text g.1, g.2))
  once : ((Filing.grouped items).map fun g => Text.lower g.1) =
    (items.map fun item => Text.lower item.itemType).eraseDups
  exact : ∀ g ∈ Filing.grouped items,
    g.2 = items.filter fun item => Text.lower item.itemType = Text.lower g.1
  perm : ∃ groups, t.itemGroups (.int i) = .ok groups ∧ (groups.flatMap (·.2)).Perm items

/-- What the folders hold of the items is what is read. -/
theorem Reported.readsItems (h : t.Reported i ps items) : t.ReadsItems i items := by
  have hGroups : t.itemGroups (.int i) =
      .ok ((Filing.grouped items).map fun g => (.text g.1, g.2)) := by
    rw [h.tables.itemGroups_eq h.room, Filing.values_items]
  refine ⟨hGroups, Filing.map_lower_grouped items, fun _ => Filing.group_of_mem_grouped, _,
    hGroups, ?_⟩
  rw [List.flatMap_map]
  exact Filing.perm_grouped items

-- ---------------------------------------------------------------------------
-- Projects in any tree
-- ---------------------------------------------------------------------------

/-- A build with a project. -/
def oneProject : Tree :=
  (Tree.empty.add .null { kind := .build }).add (.int 0) { kind := .project }

theorem made_oneProject : oneProject.Made :=
  (Made.empty.add _ _).add _ _

/-- Reports on a second project and on the first one in turn, with a target in between. -/
def reportsInTurn : List Act :=
  [ .setProperties 2 [("Configuration", "Debug"), ("Platform", "x64"), ("PLATFORM", "x86")],
    .addItems 2 [⟨"Compile", "a.cs", .empty⟩, ⟨"Items", "b", .empty⟩],
    .setProperties 1 [("Configuration", "Public")],
    .addNode (.int 2) { kind := .target },
    .addItems 1 [⟨"Compile", "c.cs", .empty⟩],
    .setProperties 2 [("configuration", "Release")],
    .addItems 2 [⟨"COMPILE", "a.cs", .empty⟩] ]

/-- A project is added to any tree, and reports on it and on other projects come in between new
nodes. Then the last value of each property that was reported on it is read, under any spelling of
its name, and the list of its properties has the same values, each under the name that came first.
All reports on it are taken, and no report on a project changes what is read of another node. The
tree is again one to which a project may be added. -/
theorem Made.reads_properties (h : t.Made) (parent : Value) {n : Node} (hKind : n.kind = .project)
    {acts : List Act} (hActs : AllAllowed t.size (t.add parent n) acts) :
    let grown := (t.add parent n).actAll acts
    grown.ReadsProperties t.size (acts.flatMap (Act.propertiesOf t.size)) ∧
      (∀ act : Act, act.subject? = some t.size → (act.run grown).2 = none) ∧ grown.Secluded ∧
      grown.Made := by
  have hReported := h.reported_all hKind hActs
  have hMade := (h.add parent n).actAll hActs
  exact ⟨hReported.readsProperties, fun _ => hReported.no_fault, hMade.linked.secluded, hMade⟩

/-- The last report under each name counts, and names keep their first spelling. -/
theorem reads_properties_inTurn :
    AllAllowed 2 (oneProject.add (.int 0) { kind := .project }) reportsInTurn ∧
      let grown := (oneProject.add (.int 0) { kind := .project }).actAll reportsInTurn
      grown.property (.int 2) (.text "CONFIGURATION") = .ok (.text "Release") ∧
        grown.properties (.int 2) =
          .ok [(.text "Configuration", .text "Release"), (.text "Platform", .text "x86")] := by
  have hActs : AllAllowed 2 (oneProject.add (.int 0) { kind := .project }) reportsInTurn := by
    decide
  obtain ⟨hReads, -⟩ := made_oneProject.reads_properties (.int 0) rfl hActs
  exact ⟨hActs, hReads.property "CONFIGURATION", hReads.properties⟩

/-- A project is added to any tree, and reports on it and on other projects come in between new
nodes. Then the items that were reported on it are read in one group for each type, none lost and
none doubled, whatever the types are called, and all reports on it are taken. -/
theorem Made.reads_items (h : t.Made) (parent : Value) {n : Node} (hKind : n.kind = .project)
    {acts : List Act} (hActs : AllAllowed t.size (t.add parent n) acts) :
    let grown := (t.add parent n).actAll acts
    grown.ReadsItems t.size (acts.flatMap (Act.itemsOf t.size)) ∧
      ∀ act : Act, act.subject? = some t.size → (act.run grown).2 = none := by
  have hReported := h.reported_all hKind hActs
  exact ⟨hReported.readsItems, fun _ => hReported.no_fault⟩

/-- An item that is reported under two spellings of its type is in the group twice, and a type may
be named like a folder. -/
theorem reads_items_inTurn :
    AllAllowed 2 (oneProject.add (.int 0) { kind := .project }) reportsInTurn ∧
      let grown := (oneProject.add (.int 0) { kind := .project }).actAll reportsInTurn
      grown.itemGroups (.int 2) = .ok
        [ (.text "Compile", [⟨"Compile", "a.cs", .empty⟩, ⟨"COMPILE", "a.cs", .empty⟩]),
          (.text "Items", [⟨"Items", "b", .empty⟩]) ] := by
  have hActs : AllAllowed 2 (oneProject.add (.int 0) { kind := .project }) reportsInTurn := by
    decide
  obtain ⟨hReads, -⟩ := made_oneProject.reads_items (.int 0) rfl hActs
  exact ⟨hActs, hReads.itemGroups⟩

end BuildDigest.Tree
