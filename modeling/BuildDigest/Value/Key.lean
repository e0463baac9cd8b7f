import BuildDigest.Fault
import BuildDigest.Ordered

/-!
# Values as keys

A value that never changes may be the key of a table: null, numbers, truth values
and texts. Numbers of different sorts that are equal are one key, and a truth
value is the number one or zero.

Main definitions.
* `Value.key` — the key that a value is.
* `Value.tabulate` — names and values with one entry for every key.
-/

namespace BuildDigest.Value

/-- What a value is as a key. -/
inductive Key
  | null
  | whole (n : Int)
  /-- A double that is no whole number. -/
  | double (d : Double)
  | text (s : String)
  deriving DecidableEq, Repr

/-- The key that a value is. Lists and objects are none. -/
def key : Value → Except Fault Key
  | .null => .ok .null
  | .bool b => .ok (.whole (if b then 1 else 0))
  | .int n => .ok (.whole n)
  | .float d => .ok ((d.whole?.map Key.whole).getD (.double d))
  | .text s => .ok (.text s)
  | v => .error (.notKey v.kind)

/-- A table of values, each with the name that its key first came under. -/
abbrev Table (α : Type) := Ordered Key (Value × α)

/-- Writes a value under a key. A key that is there keeps its name. -/
def Table.write {α : Type} (m : Table α) (key : Key) (name : Value) (value : α) : Table α :=
  Ordered.put m key (((Ordered.get? m key).map (·.1)).getD name, value)

/-- Writes names and values from left to right, unless a name is no key. -/
def Table.writeAll {α : Type} (m : Table α) : List (Value × α) → Except Fault (Table α)
  | [] => .ok m
  | (name, value) :: rest =>
    match name.key with
    | .error fault => .error fault
    | .ok key => (m.write key name value).writeAll rest

/-- Names and values with one entry for every key: the name is the first that came, the
value the last. -/
def tabulate {α : Type} (pairs : List (Value × α)) : Except Fault (List (Value × α)) :=
  (Table.writeAll Ordered.empty pairs).map Ordered.values

@[simp] theorem key_text (s : String) : key (.text s) = .ok (.text s) := rfl

/-- A value written under a key is read. -/
theorem Table.get?_write {α : Type} (m : Table α) (key : Key) (name : Value) (value : α) :
    (Ordered.get? (m.write key name value) key).map (·.2) = some value := by
  simp [Table.write, Ordered.get?_put]

end BuildDigest.Value
