import BuildDigest.Number.Double
import BuildDigest.Text.Quoted

/-!
# Values

The values that events carry. A producer may put any value into a field, so a
field that nobody checks is kept as it came. Objects are ordered: a field list
is read from left to right and a reader never yields a name twice. Texts are lists
of Unicode scalar values; a half of a surrogate pair by itself is in no text.

Main definitions.
* `Value` — the data type, `Value.Kind` — what sort of value it is.
* `Value.holds` — whether a value counts as given: the empty ones do not.
* `Value.field` — the value under a name, `null` when there is none.
* `Value.literal` — how a value is shown inside a message or inside another value.
* `Value.written` — what a value becomes where a text is wanted: a text stands for itself there.
-/

namespace BuildDigest

/-- A value. -/
inductive Value
  | null
  | bool (b : Bool)
  | int (n : Int)
  | float (d : Double)
  | text (s : String)
  | list (elements : List Value)
  | object (fields : List (String × Value))
  deriving Repr, Inhabited

namespace Value

/-- The sorts of values. -/
inductive Kind
  | null
  | bool
  | int
  | float
  | text
  | list
  | object
  deriving DecidableEq, Repr

/-- The name of a sort of values in messages. -/
def Kind.name : Kind → String
  | .null => "NoneType"
  | .bool => "bool"
  | .int => "int"
  | .float => "float"
  | .text => "str"
  | .list => "list"
  | .object => "dict"

def kind : Value → Kind
  | .null => .null
  | .bool _ => .bool
  | .int _ => .int
  | .float _ => .float
  | .text _ => .text
  | .list _ => .list
  | .object _ => .object

/-- Whether a value counts as given: null, false, zero and everything empty do not. -/
def holds : Value → Bool
  | .null => false
  | .bool b => b
  | .int n => n != 0
  | .float d => !d.isZero
  | .text s => s != ""
  | .list elements => !elements.isEmpty
  | .object fields => !fields.isEmpty

/-- A value if it is given, the empty text otherwise. -/
def orEmpty (v : Value) : Value :=
  if v.holds then v else .text ""

/-- The value under a name in a field list, `null` when there is none. -/
def field (fields : List (String × Value)) (name : String) : Value :=
  (fields.lookup name).getD .null

def ofOption : Option Value → Value
  | none => .null
  | some v => v

def ofText? : Option String → Value
  | none => .null
  | some s => .text s

/-- Whether a value is a text or absent, as a well-behaved producer writes a text field. -/
def IsTextual : Value → Prop
  | .null => True
  | .text _ => True
  | _ => False

instance (v : Value) : Decidable v.IsTextual := by
  cases v <;> unfold IsTextual <;> infer_instance

@[simp] theorem holds_null : holds .null = false := rfl

@[simp] theorem holds_text (s : String) : holds (.text s) = (s != "") := rfl

@[simp] theorem orEmpty_text (s : String) : orEmpty (.text s) = .text s := by
  unfold orEmpty
  split
  · rfl
  · next h => simpa using (Eq.symm (by simpa using h) : "" = s)

/-- A textual value that is given is a text. -/
theorem IsTextual.exists_text {v : Value} (h : v.IsTextual) (given : v.holds = true) :
    ∃ s, v = .text s ∧ s ≠ "" := by
  cases v with
  | null => simp at given
  | text s => exact ⟨s, rfl, by simpa using given⟩
  | bool _ | int _ | float _ | list _ | object _ => exact h.elim

/-- What stands for an absent textual value is a text. -/
theorem IsTextual.orEmpty_eq {v : Value} (h : v.IsTextual) : ∃ s, v.orEmpty = .text s := by
  unfold orEmpty
  split
  · obtain ⟨s, rfl, _⟩ := h.exists_text ‹_›
    exact ⟨s, rfl⟩
  · exact ⟨"", rfl⟩

-- ---------------------------------------------------------------------------
-- Values as text
-- ---------------------------------------------------------------------------

/-- Texts in a row with commas between them. -/
def commaList (texts : List String) : String :=
  ", ".intercalate texts

mutual

/-- A value as it is shown in a message. -/
def literal : Value → String
  | .null => "None"
  | .bool b => if b then "True" else "False"
  | .int n => toString n
  | .float d => d.text
  | .text s => Text.quoted s
  | .list elements => "[" ++ commaList (elementLiterals elements) ++ "]"
  | .object fields => "\x7b" ++ commaList (fieldLiterals fields) ++ "\x7d"

/-- The elements of a list as they are shown. -/
def elementLiterals : List Value → List String
  | [] => []
  | v :: rest => literal v :: elementLiterals rest

/-- The fields of an object as they are shown. -/
def fieldLiterals : List (String × Value) → List String
  | [] => []
  | f :: rest => fieldLiteral f :: fieldLiterals rest

/-- One field of an object as it is shown. -/
def fieldLiteral : String × Value → String
  | (name, v) => Text.quoted name ++ ": " ++ literal v

end

def written : Value → String
  | .text s => s
  | v => literal v

@[simp] theorem written_text (s : String) : written (.text s) = s := rfl

end Value

end BuildDigest
