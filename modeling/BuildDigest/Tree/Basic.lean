import BuildDigest.Item.Basic

/-!
# Build trees

The nodes of a build stand in one arena and refer to each other by their place
in it. A node is attached below its parent when it is added, so a parent that is
there stands before its children.

A caller names a place by a value. Whole numbers count from the front or, below
zero, from the end; truth values are the places zero and one; no other value is a
place. The parent of a node is kept as the caller gave it.

A walk yields the nodes below a node in pre-order: every node before its
children, children in their order. A predicate may forbid to go below some nodes;
those are yielded themselves. The walk keeps the list of the indices that are still
to be visited. Each node is attached to one parent at most, so the size of the tree
bounds the steps.

Main definitions.
* `Node`, `Tree`.
* `Tree.locate` — the index of a place.
* `Tree.add` — a new node below a parent.
* `Tree.node`, `Tree.children`, `Tree.findChild` — looking down from a node.
* `Tree.ancestors`, `Tree.enclosing` — looking up.
* `Tree.walk`, `Tree.visit` — the nodes below a place, or of a kind, in pre-order.
-/

namespace BuildDigest

/-- What a node stands for. -/
inductive Node.Kind
  | build
  | project
  | target
  | task
  | folder
  | nameValue
  | item
  | message
  | commandLine
  deriving DecidableEq, Repr

namespace Node.Kind

def all : List Kind :=
  [.build, .project, .target, .task, .folder, .nameValue, .item, .message, .commandLine]

def name : Kind → String
  | .build => "build"
  | .project => "project"
  | .target => "target"
  | .task => "task"
  | .folder => "folder"
  | .nameValue => "nameValue"
  | .item => "item"
  | .message => "message"
  | .commandLine => "commandLine"

def ofName? (s : String) : Option Kind :=
  all.find? fun kind => kind.name == s

def ofValue (v : Value) : Except Fault Kind :=
  match v with
  | .text s =>
    match ofName? s with
    | some kind => .ok kind
    | none => .error (.unknownNodeKind v)
  | v => .error (.unknownNodeKind v)

end Node.Kind

/-- A node of a build. The name is that of a project file, target, task, folder or
property, or the severity of a message; the value is that of a property, the text of a
message or a command line. What nobody checks is kept as the event or the caller had it. -/
structure Node where
  kind : Node.Kind
  index : Nat := 0
  name : Value := .text ""
  value : Value := .null
  /-- The place of the parent as it was given, `null` for none. -/
  parent : Value := .null
  children : List Nat := []
  projectFile : Value := .null
  item : Option Item := none
  finished : Value := .bool false
  succeeded : Value := .null
  deriving Repr

/-- The nodes of a build, each at the place that is its index. -/
structure Tree where
  nodes : Array Node
  deriving Repr

namespace Tree

def empty : Tree :=
  ⟨#[]⟩

def size (t : Tree) : Nat :=
  t.nodes.size

/-- The bound of the places that are counted at all. -/
def placeLimit : Int := 9223372036854775808

/-- The index of a place, counted from the front or, below zero, from the end. -/
def locateNumber (t : Tree) (n : Int) : Except Fault Nat :=
  let i := if n < 0 then n + t.size else n
  if 0 ≤ i ∧ i < t.size then .ok i.toNat
  else if -placeLimit ≤ n ∧ n < placeLimit then .error .outOfRange
  else .error .wideIndex

def locate (t : Tree) : Value → Except Fault Nat
  | .int n => t.locateNumber n
  | .bool b => t.locateNumber (if b then 1 else 0)
  | v => .error (.notIndex v.kind)

def node (t : Tree) (place : Value) : Except Fault Node :=
  match t.locate place with
  | .error fault => .error fault
  | .ok i =>
    match t.nodes[i]? with
    | some n => .ok n
    | none => .error .outOfRange

/-- The first node, below which all attached nodes stand. -/
def root? (t : Tree) : Option Node :=
  t.nodes[0]?

def change (t : Tree) (i : Nat) (f : Node → Node) : Tree :=
  ⟨t.nodes.modify i f⟩

/-- A tree with one more node at its end, attached to nothing. -/
def push (t : Tree) (parent : Value) (n : Node) : Tree :=
  ⟨t.nodes.push { n with index := t.size, parent, children := [] }⟩

/-- A tree in which a node lists one more child. -/
def attach (t : Tree) (i child : Nat) : Tree :=
  t.change i fun n => { n with children := n.children ++ [child] }

/-- A tree with one more node below a parent, which is looked up when the node is there,
or below none. A node whose parent is at fault is added all the same, attached to nothing. The
index of the new node is the size of the tree before. -/
def addNode (t : Tree) (parent : Value) (n : Node) : Tree × Option Fault :=
  let grown := t.push parent n
  match parent with
  | .null => (grown, none)
  | place =>
    match grown.locate place with
    | .ok i => (grown.attach i t.size, none)
    | .error fault => (grown, some fault)

/-- A tree with one more node below a parent that is there, or below none. -/
def add (t : Tree) (parent : Value) (n : Node) : Tree :=
  (t.addNode parent n).1

-- ---------------------------------------------------------------------------
-- Looking down
-- ---------------------------------------------------------------------------

def nodesAt (t : Tree) (indices : List Nat) : List Node :=
  indices.filterMap fun i => t.nodes[i]?

/-- The children of the node with an index, in order. -/
def childrenAt (t : Tree) (i : Nat) : List Node :=
  match t.nodes[i]? with
  | some n => t.nodesAt n.children
  | none => []

def children (t : Tree) (place : Value) : Except Fault (List Node) :=
  (t.locate place).map t.childrenAt

/-- The first of a list of nodes with a kind and, if one is given, a name in lower case. -/
def findNode (kind : Node.Kind) (folded : Option String) :
    List Node → Except Fault (Option Node)
  | [] => .ok none
  | n :: rest =>
    if n.kind ≠ kind then findNode kind folded rest
    else
      match folded with
      | none => .ok (some n)
      | some folded =>
        match n.name.asText .lower with
        | .error fault => .error fault
        | .ok name =>
          if Text.lower name = folded then .ok (some n) else findNode kind (some folded) rest

/-- The name to look for in lower case, `null` for any name. -/
def foldName : Value → Except Fault (Option String)
  | .null => .ok none
  | name => (name.asText .lower).map fun name => some (Text.lower name)

/-- The first child of a kind, and with a name in any case unless the name is `null`. -/
def findChild (t : Tree) (place : Value) (kind : Node.Kind) (name : Value) :
    Except Fault (Option Node) :=
  match foldName name with
  | .error fault => .error fault
  | .ok folded =>
    match t.locate place with
    | .error fault => .error fault
    | .ok i => findNode kind folded (t.childrenAt i)

-- ---------------------------------------------------------------------------
-- Looking up
-- ---------------------------------------------------------------------------

/-- The nodes from a parent up to the root, and the fault where the way up ends at no node.
The first argument bounds the steps. -/
def climb (t : Tree) : Nat → Value → List Node × Option Fault
  | _, .null => ([], none)
  | 0, _ => ([], none)
  | fuel + 1, place =>
    match t.node place with
    | .error fault => ([], some fault)
    | .ok n => let (above, fault) := t.climb fuel n.parent; (n :: above, fault)

def above (t : Tree) (n : Node) : List Node × Option Fault :=
  t.climb t.size n.parent

/-- The nodes above the node at a place, innermost first. -/
def ancestors (t : Tree) (place : Value) : Except Fault (List Node) :=
  match t.node place with
  | .error fault => .error fault
  | .ok n =>
    match t.above n with
    | (ns, none) => .ok ns
    | (_, some fault) => .error fault

/-- The innermost node of a kind at a place or above it. -/
def enclosing (t : Tree) (place : Value) (kind : Node.Kind) : Except Fault (Option Node) :=
  match t.node place with
  | .error fault => .error fault
  | .ok n =>
    if n.kind = kind then .ok (some n)
    else
      let (ns, fault) := t.above n
      match ns.find? (·.kind = kind), fault with
      | some found, _ => .ok (some found)
      | none, some fault => .error fault
      | none, none => .ok none

-- ---------------------------------------------------------------------------
-- Walks
-- ---------------------------------------------------------------------------

/-- The nodes met when the pending indices are visited from the front on, the children of
a node being put in front of the rest. The first argument bounds the steps. -/
def walkFrom (t : Tree) (stop : Node → Bool) : Nat → List Nat → List Node
  | 0, _ => []
  | _, [] => []
  | fuel + 1, i :: pending =>
    match t.nodes[i]? with
    | none => walkFrom t stop fuel pending
    | some n => n :: walkFrom t stop fuel (if stop n then pending else n.children ++ pending)

def below (t : Tree) (stop : Node → Bool) (n : Node) : List Node :=
  t.walkFrom stop t.size n.children

/-- The nodes below a place, in pre-order; none at all in a tree without nodes. -/
def walk (t : Tree) (place : Value) (stop : Node → Bool) : Except Fault (List Node) :=
  if t.size = 0 then .ok [] else (t.node place).map (t.below stop)

/-- The root and the nodes below it that are of a kind, in pre-order. -/
def visit (t : Tree) (kind : Node.Kind) : List Node :=
  match t.root? with
  | none => []
  | some root => (root :: t.below (fun _ => false) root).filter (·.kind = kind)

-- ---------------------------------------------------------------------------
-- Small facts
-- ---------------------------------------------------------------------------

@[simp] theorem size_push (t : Tree) (parent : Value) (n : Node) :
    (t.push parent n).size = t.size + 1 := by
  simp [push, size]

@[simp] theorem size_change (t : Tree) (i : Nat) (f : Node → Node) :
    (t.change i f).size = t.size := by
  simp [change, size]

@[simp] theorem size_add (t : Tree) (parent : Value) (n : Node) :
    (t.add parent n).size = t.size + 1 := by
  simp only [add, addNode]
  split
  · simp
  · split <;> simp [attach]

/-- A place counted from the front is an index below the size. -/
theorem locate_natCast {t : Tree} {i : Nat} (h : i < t.size) : t.locate (.int i) = .ok i := by
  have hi : ¬ (i : Int) < 0 := by omega
  simp only [locate, locateNumber, if_neg hi]
  rw [if_pos (by omega), Int.toNat_natCast]

/-- A place that is found is an index below the size. -/
theorem lt_size_of_locate {t : Tree} {place : Value} {i : Nat} (h : t.locate place = .ok i) :
    i < t.size := by
  have number {n : Int} (h : t.locateNumber n = .ok i) : i < t.size := by
    simp only [locateNumber] at h
    generalize (if n < 0 then n + (t.size : Int) else n) = k at h
    split at h
    · next bounds =>
      cases h
      omega
    · split at h <;> cases h
  cases place with
  | int n => exact number h
  | bool b => exact number h
  | null => simp [locate] at h
  | float d => simp [locate] at h
  | text s => simp [locate] at h
  | list vs => simp [locate] at h
  | object fields => simp [locate] at h

/-- The node at a place counted from the front. -/
theorem node_natCast {t : Tree} {i : Nat} {n : Node} (h : t.nodes[i]? = some n) :
    t.node (.int i) = .ok n := by
  obtain ⟨hi, _⟩ := Array.getElem?_eq_some_iff.1 h
  simp only [node, locate_natCast (t := t) hi, h]

end Tree

end BuildDigest
