import BuildDigest.Settings
import BuildDigest.Startup.LogLevel
import BuildDigest.Startup.Options

/-!
# Starting the program

The order of the start: the options are read, the log level is set, the settings
are taken from the environment and then from the options, and the service serves
until its transport ends. A fault before the transport starts leaves the later
steps undone.

Main definitions.
* `Startup.prepare` — the start up to the transport.
* `Startup.run` — what a run leaves behind, given how its transport ends.
-/

namespace BuildDigest.Startup

/-- Why a start does not reach the transport. -/
inductive Stop
  | help
  | refused (fault : Options.Fault)
  | badLevel (fault : LogLevel.Fault)
  deriving DecidableEq, Repr

/-- What is set when the transport starts. -/
structure Ready where
  level : Nat
  settings : Settings
  deriving Repr

/-- How the transport of the service ends. -/
inductive Ending
  | ok
  | failure (message : String)
  | interrupt
  deriving DecidableEq, Repr

/-- How a run ends. -/
inductive Result
  | done
  | stopped (reason : Stop)
  | failed (message : String)
  deriving DecidableEq, Repr

/-- What a run leaves behind. -/
structure Report where
  /-- How often the transport ran. -/
  served : Nat := 0
  level : Nat := LogLevel.unset
  settings : Settings := {}
  result : Result := .done
  deriving Repr

/-- The settings of the environment, without a tree if the options say so. -/
def settingsOf (env : Environment) (options : Options) : Settings :=
  let settings := Settings.ofEnvironment env
  if options.noTree then { settings with buildTree := .bool false } else settings

/-- A start with arguments and an environment, up to the transport. -/
def prepare (arguments : List String) (env : Environment) : Except Stop Ready :=
  match Options.read arguments with
  | .help => .error .help
  | .refuse fault => .error (.refused fault)
  | .run options =>
    match LogLevel.choose options.logLevel env with
    | .error fault => .error (.badLevel fault)
    | .ok level => .ok { level, settings := settingsOf env options }

/-- The result of a run whose transport ended. An interrupt ends a run like the end of its
input. -/
def Result.ofEnding : Ending → Result
  | .ok | .interrupt => .done
  | .failure message => .failed message

/-- A run with arguments and an environment, up to the end of the transport. -/
def run (arguments : List String) (env : Environment) (ending : Ending) : Report :=
  match prepare arguments env with
  | .error reason => { result := .stopped reason }
  | .ok ready =>
    { served := 1, level := ready.level, settings := ready.settings,
      result := Result.ofEnding ending }

end BuildDigest.Startup
