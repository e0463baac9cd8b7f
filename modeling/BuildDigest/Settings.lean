import BuildDigest.Fault
import BuildDigest.Text.Blank

/-!
# Settings

What can be set about the analysis, and how the environment sets it. A setting
that the environment leaves empty keeps its default. Settings that a caller gives
are kept as they came and are looked at when they are needed.

Main definitions.
* `Settings.isCompilerTask` — whether a task is a compiler task.
* `Settings.ofTexts` — the settings of four texts.
* `Settings.ofVariables`, `Settings.ofEnvironment` — the settings of variables of any values
  and of an environment; `Settings.load` — of either.
-/

namespace BuildDigest

/-- The settings of an analysis. -/
structure Settings where
  /-- The target whose compiler call counts before all others. -/
  coreTarget : Value := .text "CoreCompile"
  /-- The tasks whose command lines are compiler calls. -/
  compilerTasks : List Value := [.text "Csc"]
  /-- The file names of compilers, which are no source files. -/
  compilerFiles : List Value := [.text "csc.dll", .text "csc.exe"]
  /-- Whether events are arranged as a tree. Without a tree there are no results. -/
  buildTree : Value := .bool true
  deriving Repr

/-- The variables of a process with their values. -/
abbrev Environment := List (String × String)

/-- The environment of variables, which can only be texts. -/
def Environment.ofVariables : List (String × Value) → Except Fault Environment
  | [] => .ok []
  | (name, .text value) :: rest => (ofVariables rest).map ((name, value) :: ·)
  | (_, v) :: _ => .error (.notVariable v.kind)

namespace Settings

/-- Whether a task is a compiler task. A command line without a task is a compiler call. -/
def isCompilerTask (s : Settings) (task : Value) : Except Fault Bool :=
  if task.holds then
    match task.asText .lower with
    | .error fault => .error fault
    | .ok name => (Value.lowerAll s.compilerTasks).map fun names => names.contains (Text.lower name)
  else .ok true

/-- The name of the core target in lower case. -/
def coreName (s : Settings) : Except Fault String :=
  (s.coreTarget.asText .lower).map Text.lower

def offWords : List String :=
  ["0", "false", "no", "off"]

/-- A list of names, or the default if there are none. -/
def namesOr (default : List Value) (names : List String) : List Value :=
  if names.isEmpty then default else names.map .text

/-- The settings of four texts: a target, lists of tasks and of files, and a switch. -/
def ofTexts (target tasks files tree : String) : Settings :=
  let defaults : Settings := {}
  { coreTarget :=
      if Text.strip target = "" then defaults.coreTarget else .text (Text.strip target)
    compilerTasks := namesOr defaults.compilerTasks (Text.entries tasks)
    compilerFiles := namesOr defaults.compilerFiles (Text.entries files)
    buildTree := .bool (!offWords.contains (Text.lower (Text.strip tree))) }

/-- The value of a variable, the empty text when it is not set. -/
def valueOf (given : List (String × Value)) (name : String) : Value :=
  (given.lookup name).getD (.text "")

/-- The settings of variables, which have to be texts. -/
def ofVariables (given : List (String × Value)) : Except Fault Settings := do
  let value := valueOf given
  let target ← (value "BUILDFACTS_CORE_COMPILE_TARGET").asText .strip
  let tasks ← (value "BUILDFACTS_COMPILER_TASKS").asText .split
  let files ← (value "BUILDFACTS_COMPILER_EXECUTABLES").asText .split
  let tree ← (value "BUILDFACTS_BUILD_TREE").asText .strip
  return ofTexts target tasks files tree

/-- The text of a variable, empty when it is not set. -/
def textOf (env : Environment) (name : String) : String :=
  (env.lookup name).getD ""

def ofEnvironment (env : Environment) : Settings :=
  ofTexts (textOf env "BUILDFACTS_CORE_COMPILE_TARGET") (textOf env "BUILDFACTS_COMPILER_TASKS")
    (textOf env "BUILDFACTS_COMPILER_EXECUTABLES") (textOf env "BUILDFACTS_BUILD_TREE")

/-- The settings of variables that a caller gives, or of the environment for `null`. -/
def load (env : Environment) : Value → Except Fault Settings
  | .null => .ok (ofEnvironment env)
  | .object given => ofVariables given
  | v => .error (.unusable v.kind .get)

/-- A variable of an environment holds a text. -/
theorem valueOf_map_text (env : Environment) (name : String) :
    valueOf (env.map fun v => (v.1, .text v.2)) name = .text (textOf env name) := by
  induction env with
  | nil => rfl
  | cons v rest ih =>
    obtain ⟨key, value⟩ := v
    simp only [valueOf, textOf, List.map_cons, List.lookup_cons] at ih ⊢
    by_cases h : name == key <;> simp [h, ih]

/-- The variables of an environment set what the environment sets. -/
theorem ofVariables_map_text (env : Environment) :
    ofVariables (env.map fun v => (v.1, .text v.2)) = .ok (ofEnvironment env) := by
  simp only [ofVariables, ofEnvironment, valueOf_map_text, Value.asText_text]
  rfl

end Settings

end BuildDigest
