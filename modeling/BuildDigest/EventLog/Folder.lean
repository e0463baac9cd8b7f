import BuildDigest.Path
import BuildDigest.Text.Quoted

/-!
# Folders of log files

A folder as the reader of a log sees it: files and folders under relative names,
looked up component by component. The folder lies in an outer one of which
nothing is known, so a path that leaves it ends nowhere.

Main definitions.
* `Opener` — what opening a path gives.
* `Folder` — the files and folders under relative names, `Folder.ofPaths` — those that stand
  under relative paths.
* `pathText` — a path as it is shown.
* `Folder.openFile` — the octets of a file, or why there are none.
-/

namespace BuildDigest

/-- Why a path cannot be opened. -/
inductive OpenFault
  | missing
  | isFolder
  | notFolder
  | nameTooLong
  deriving DecidableEq, Repr

def OpenFault.code : OpenFault → Nat
  | .missing => 2
  | .isFolder => 21
  | .notFolder => 20
  | .nameTooLong => 36

def OpenFault.name : OpenFault → String
  | .missing => "No such file or directory"
  | .isFolder => "Is a directory"
  | .notFolder => "Not a directory"
  | .nameTooLong => "File name too long"

/-- The wording of a fault at a path. -/
def OpenFault.message (fault : OpenFault) (path : String) : String :=
  s!"[Errno {fault.code}] {fault.name}: {Text.quoted path}"

/-- What opening a path gives: all octets of a file, or why there are none. A file that is opened is
read to its end. -/
abbrev Opener := String → Except OpenFault (List UInt8)

/-- What stands under a name. -/
inductive Folder.Entry
  | file (octets : List UInt8)
  | folder
  deriving Repr

/-- Entries under relative names with slashes. -/
structure Folder where
  entries : List (String × Folder.Entry)
  deriving Repr

namespace Folder

/-- The components of a path that count: empty ones and single points do not. -/
def pathParts (path : List Char) : List (List Char) :=
  (Path.components path).filter fun part => !(part.isEmpty || part == ['.'])

/-- The slashes in front of a path: two if there are exactly two, else one or none. -/
def pathRoot (path : List Char) : List Char :=
  if Path.isAbsolute path then Path.lead path else []

/-- A path as it is shown: without the components that do not count. -/
def pathText (path : String) : String :=
  let cs := path.toList
  let shown := pathRoot cs ++ Path.joinParts (pathParts cs)
  if shown.isEmpty then "." else String.ofList shown

def nameOf (parts : List (List Char)) : String :=
  String.ofList (Path.joinParts parts)

/-- What has to stand in a folder for an entry to stand under a path: the entry and the
folders that the path goes through, from the components passed so far, the last one first. -/
def standing (entry : Entry) : List (List Char) → List (List Char) → List (String × Entry)
  | _, [] => []
  | passed, part :: rest =>
    if part = ['.', '.'] then standing entry passed.tail rest
    else if rest = [] then [(nameOf (part :: passed).reverse, entry)]
    else
      (nameOf (part :: passed).reverse, .folder) :: standing entry (part :: passed) rest

/-- A folder with entries under relative paths, of which a later one replaces an earlier. -/
def ofPaths (entries : List (String × Entry)) : Folder :=
  ⟨(entries.flatMap fun e => standing e.2 [] (pathParts e.1.toList)).reverse⟩

/-- What stands under the components of a name. -/
def find? (f : Folder) (parts : List (List Char)) : Option Entry :=
  f.entries.lookup (nameOf parts)

/-- The most octets of a component of a path. -/
def nameLimit : Nat := 255

/-- Where a walk through folders stands: at a depth outside the folder, or inside it with
the last component first. -/
inductive Place
  | outside
  | inside (passed : List (List Char))
  deriving Repr

/-- The octets of the file at the end of a walk. -/
def follow (f : Folder) : Place → List (List Char) → Except OpenFault (List UInt8)
  | _, [] => .error .isFolder
  | place, part :: rest =>
    if nameLimit < (String.ofList part).utf8ByteSize then .error .nameTooLong
    else if part = ['.', '.'] then
      match place with
      | .inside (_ :: passed) => f.follow (.inside passed) rest
      | _ => f.follow .outside rest
    else
      match place with
      | .outside => .error .missing
      | .inside passed =>
        match f.find? (part :: passed).reverse with
        | none => .error .missing
        | some .folder => f.follow (.inside (part :: passed)) rest
        | some (.file octets) => if rest.isEmpty then .ok octets else .error .notFolder

def pathLimit : Nat := 4095

/-- The octets of the file at a path. -/
def openFile (f : Folder) : Opener := fun path =>
  let cs := path.toList
  if pathLimit < (pathText path).utf8ByteSize then .error .nameTooLong
  else f.follow (if Path.isAbsolute cs then .outside else .inside []) (pathParts cs)

end Folder

end BuildDigest
