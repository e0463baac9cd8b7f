import BuildDigest.Ordered
import BuildDigest.Snapshot.Facts

/-!
# Stored results

The results of the last analysis of every project, under the normalized path of
the project and in the order in which the projects were first analysed.
-/

namespace BuildDigest

/-- Results by the normalized path of their project. -/
structure Store where
  results : Ordered String (List Snapshot)
  deriving Repr

namespace Store

def empty : Store :=
  ⟨.empty⟩

def set (st : Store) (cwd : String) (project : Value) (snapshots : List Snapshot) :
    Except Fault Store :=
  (Path.normalized cwd project).map fun key => ⟨st.results.put key snapshots⟩

/-- The results of all projects, or of one unless it is `null`. -/
def get (st : Store) (cwd : String) : Value → Except Fault (List (String × List Snapshot))
  | .null => .ok st.results.entries
  | project =>
    (Path.normalized cwd project).map fun key =>
      match st.results.get? key with
      | some snapshots => [(key, snapshots)]
      | none => []

def encode (cwd : String) : List (String × List Snapshot) → Except Fault (List (String × Value))
  | [] => .ok []
  | (key, snapshots) :: rest => do
    let vs ← Snapshot.listToValues cwd snapshots
    let fields ← encode cwd rest
    return (key, .list vs) :: fields

/-- The results of all projects, or of one unless it is `null`, as a value. -/
def toValue (st : Store) (cwd : String) (project : Value) : Except Fault Value :=
  match st.get cwd project with
  | .error fault => .error fault
  | .ok results => (encode cwd results).map .object

end Store

end BuildDigest
