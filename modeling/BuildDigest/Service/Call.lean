import BuildDigest.Service.Tools

/-!
# Calls of the service

A call names a tool and brings its arguments as the caller sent them; an argument
that is missing counts as null.

Main definitions.
* `Call.ofName?` — the call of a tool by its name.
* `Service.perform` — the answer to a call.
-/

namespace BuildDigest

/-- A call of a tool. -/
inductive Call
  | analyzeEvents (project events tree : Value)
  | analyzeLog (project path : Value)
  | storedResults (project : Value)
  | describeCommandLine (line : Value)
  deriving Repr

namespace Call

def toolNames : List String :=
  [ "analyze_build_events", "analyze_event_log", "get_analysis_results",
    "parse_compiler_command_line" ]

/-- The call of a tool by its name, if there is such a tool. -/
def ofName? (name : String) (arguments : List (String × Value)) : Option Call :=
  let argument := Value.field arguments
  match name with
  | "analyze_build_events" =>
    some (.analyzeEvents (argument "project_path") (argument "events") (argument "build_tree"))
  | "analyze_event_log" =>
    some (.analyzeLog (argument "project_path") (argument "log_path"))
  | "get_analysis_results" => some (.storedResults (argument "project_path"))
  | "parse_compiler_command_line" => some (.describeCommandLine (argument "command_line"))
  | _ => none

/-- Whether a call may change the results, and so tell the session about it. -/
def isAnalysis : Call → Bool
  | .analyzeEvents _ _ _ | .analyzeLog _ _ => true
  | .storedResults _ | .describeCommandLine _ => false

end Call

/-- The answer to a call, and the service after it. -/
def Service.perform (s : Service) (opener : Opener) (session : Session) :
    Call → Service × Service.Reply
  | .analyzeEvents project events tree => s.analyzeEvents session project events tree
  | .analyzeLog project path => s.analyzeLog opener session project path
  | .storedResults project => (s, ⟨s.storedResults project, []⟩)
  | .describeCommandLine line => (s, ⟨describeCommandLine line, []⟩)

end BuildDigest
