import BuildDigest.Fault
import BuildDigest.Text.Blank

/-!
# File paths

Paths are written with slashes; a producer may write backslashes, which count as
slashes wherever a path is normalized or resolved. A normalized path is
absolute: a lead of one slash (two if there were exactly two), then components
with single slashes between them, none of them empty, `.` or `..`.

A caller may give any value for a path, and an event any value for a project. A
path that is no text is a fault of the first use that is made of it.

Main definitions.
* `normalize` — the normalized path, relative paths being taken from a directory.
* `directory` and `fileName` — what stands before and after the last slash.
* `resolve` — a path taken from the directory of a project.
* `normalized`, `directoryOf`, `resolved`, `resolvedAll` — the same for paths given as values.
-/

namespace BuildDigest.Path

def forward (cs : List Char) : List Char :=
  cs.map fun c => if c = '\\' then '/' else c

/-- The components of a path, empty ones included. -/
def components (cs : List Char) : List (List Char) :=
  Text.pieceChars '/' cs

/-- One step down a path: the components passed so far, the last one first. -/
def enter (passed : List (List Char)) (component : List Char) : List (List Char) :=
  if component = [] ∨ component = ['.'] then passed
  else if component = ['.', '.'] then passed.tail
  else component :: passed

/-- The components that remain when a path is followed from the root. -/
def reduce (parts : List (List Char)) : List (List Char) :=
  (parts.foldl enter []).reverse

def joinParts (parts : List (List Char)) : List Char :=
  ['/'].intercalate parts

def isAbsolute (cs : List Char) : Bool :=
  cs.head? == some '/'

/-- The slashes in front of a normalized path: two if there are exactly two, else one. -/
def lead : List Char → List Char
  | '/' :: '/' :: '/' :: _ => ['/']
  | '/' :: '/' :: _ => ['/', '/']
  | _ => ['/']

/-- A path taken from a directory, unless it starts at the root. -/
def join (dir path : List Char) : List Char :=
  if isAbsolute path then path
  else if dir = [] ∨ dir.getLast? = some '/' then dir ++ path
  else dir ++ '/' :: path

/-- The normalized form of a path; a relative one is taken from `cwd`. -/
def normalizeChars (cwd path : List Char) : List Char :=
  let full := join cwd (forward path)
  lead full ++ joinParts (reduce (components full))

def fileNameChars (cs : List Char) : List Char :=
  (cs.reverse.takeWhile (· != '/')).reverse

/-- What precedes the last slash, without slashes at its end unless it has nothing else. -/
def directoryChars (cs : List Char) : List Char :=
  let head := cs.reverse.dropWhile (· != '/')
  let trimmed := head.dropWhile (· == '/')
  if trimmed.isEmpty then head.reverse else trimmed.reverse

/-- A path taken from the directory of a project, normalized. -/
def resolveChars (cwd project relative : List Char) : List Char :=
  normalizeChars cwd (join (directoryChars project) (forward relative))

/-- A file name without its extension. Points at its start begin no extension. -/
def stemChars (cs : List Char) : List Char :=
  let body := cs.dropWhile (· == '.')
  let stem := (body.reverse.dropWhile (· != '.')).drop 1
  if stem.isEmpty then cs else cs.takeWhile (· == '.') ++ stem.reverse

/-- The normalized form of a path; a relative one is taken from `cwd`. -/
def normalize (cwd path : String) : String :=
  String.ofList (normalizeChars cwd.toList path.toList)

def directory (project : String) : String :=
  String.ofList (directoryChars project.toList)

def fileName (path : String) : String :=
  String.ofList (fileNameChars (forward path.toList))

def stem (name : String) : String :=
  String.ofList (stemChars name.toList)

/-- A path taken from the directory of a project, normalized. -/
def resolve (cwd project relative : String) : String :=
  String.ofList (resolveChars cwd.toList project.toList relative.toList)

-- ---------------------------------------------------------------------------
-- Paths given as values
-- ---------------------------------------------------------------------------

def normalized (cwd : String) (path : Value) : Except Fault String :=
  (path.asText .replace).map (normalize cwd)

def directoryOf : Value → Except Fault String
  | .text project => .ok (directory project)
  | v => .error (.notPath v.kind)

/-- A path taken from the directory of a project, normalized. -/
def resolved (cwd : String) (project relative : Value) : Except Fault String :=
  match relative.asText .replace with
  | .error fault => .error fault
  | .ok relative =>
    match project with
    | .text project => .ok (resolve cwd project relative)
    | v => .error (.notPath v.kind)

/-- Paths taken from the directory of a project, normalized. Without paths the project is
not looked at. -/
def resolvedAll (cwd : String) (project : Value) (relatives : List String) :
    Except Fault (List String) :=
  match relatives, project with
  | [], _ => .ok []
  | relatives, .text project => .ok (relatives.map (resolve cwd project))
  | _, v => .error (.notPath v.kind)

-- ---------------------------------------------------------------------------
-- Small facts
-- ---------------------------------------------------------------------------

@[simp] theorem forward_forward (cs : List Char) : forward (forward cs) = forward cs := by
  simp only [forward, List.map_map]
  apply List.map_congr_left
  intro c _
  by_cases h : c = '\\' <;> simp [h]

theorem not_mem_forward (cs : List Char) : '\\' ∉ forward cs := by
  simp only [forward, List.mem_map, not_exists, not_and]
  intro c _
  by_cases h : c = '\\' <;> simp [h]

/-- The paths of a project that is a text. -/
@[simp] theorem resolvedAll_text (cwd project : String) (relatives : List String) :
    resolvedAll cwd (.text project) relatives = .ok (relatives.map (resolve cwd project)) := by
  cases relatives <;> rfl

end BuildDigest.Path
