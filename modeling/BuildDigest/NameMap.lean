import BuildDigest.Fault
import BuildDigest.Ordered
import BuildDigest.Text.Lower

/-!
# Maps over names without case

Properties, item groups and metadata are looked up by name, and two names that
differ in case only are the same name. A map keeps for every name the spelling
and the value it was last written with, at the place of its first arrival.
-/

namespace BuildDigest

/-- Values under names without case, each with the spelling last used. -/
structure NameMap (α : Type) where
  folded : Ordered String (String × α)
  deriving Repr

namespace NameMap

variable {α : Type}

def empty : NameMap α :=
  ⟨.empty⟩

def record (m : NameMap α) (name : String) (value : α) : NameMap α :=
  ⟨m.folded.put (Text.lower name) (name, value)⟩

def recordAll (m : NameMap α) (pairs : List (String × α)) : NameMap α :=
  pairs.foldl (fun m p => m.record p.1 p.2) m

/-- The map written by a list of names and values. -/
def ofList (pairs : List (String × α)) : NameMap α :=
  empty.recordAll pairs

/-- The value under a name in any spelling. -/
def get? (m : NameMap α) (name : String) : Option α :=
  (m.folded.get? (Text.lower name)).map (·.2)

/-- Whether a name was written in any spelling. -/
def contains (m : NameMap α) (name : String) : Bool :=
  m.folded.contains (Text.lower name)

/-- Names, as last spelled, and values in order of first arrival. -/
def entries (m : NameMap α) : List (String × α) :=
  m.folded.values

def names (m : NameMap α) : List String :=
  m.entries.map (·.1)

def size (m : NameMap α) : Nat :=
  m.entries.length

def isEmpty (m : NameMap α) : Bool :=
  m.entries.isEmpty

/-- The last value written under a name is read, in any spelling. -/
theorem get?_record (m : NameMap α) (name q : String) (value : α) :
    (m.record name value).get? q =
      if Text.lower q = Text.lower name then some value else m.get? q := by
  simp only [get?, record, Ordered.get?_put]
  split <;> rfl

/-- A name is known exactly when it has a value. -/
theorem contains_eq_isSome (m : NameMap α) (q : String) : m.contains q = (m.get? q).isSome := by
  simp [contains, get?, Ordered.contains]

end NameMap

/-- Writes pairs whose names must be texts, up to the first that is none. -/
def NameMap.recordPairs (m : NameMap Value) :
    List (Value × Value) → NameMap Value × Option Fault
  | [] => (m, none)
  | (name, value) :: rest =>
    match name.asText .lower with
    | .error fault => (m, some fault)
    | .ok name => (m.record name value).recordPairs rest

/-- Writes the pairs of a value that is gone through for names and values. What comes
before the first fault stays written. -/
def NameMap.recordFrom (m : NameMap Value) (source : Value) : NameMap Value × Option Fault :=
  let (pairs, rest) := source.pairs
  match m.recordPairs pairs with
  | (m, some fault) => (m, some fault)
  | (m, none) => (m, rest)

end BuildDigest
