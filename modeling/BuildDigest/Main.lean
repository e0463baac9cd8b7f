import BuildDigest.Service.Call
import BuildDigest.Startup.Run

/-!
# The program

Starts with the arguments and the environment of the process and serves calls from
standard input, one object a line with the name of a tool under `tool` and its
arguments under `args`. Each is answered on a line of its own, after a line for
every resource that changed. A line without a tool is answered with the stored
results.
-/

namespace BuildDigest.Program

def variableNames : List String :=
  [ "LOG_LEVEL", "BUILDFACTS_CORE_COMPILE_TARGET", "BUILDFACTS_COMPILER_TASKS",
    "BUILDFACTS_COMPILER_EXECUTABLES", "BUILDFACTS_BUILD_TREE" ]

/-- The variables that are set, with their values. -/
def environment : IO Environment :=
  variableNames.filterMapM fun name => do
    return (← IO.getEnv name).map fun value => (name, value)

/-- What opening the path of a log gives. -/
def openLog (path : String) : IO (Except OpenFault (List UInt8)) := do
  try
    return .ok (← IO.FS.readBinFile path).toList
  catch
    | .noFileOrDirectory .. => return .error .missing
    | .inappropriateType .. => return .error .isFolder
    | _ => return .error .notFolder

/-- What opening the log of a call gives, if the call reads a log. -/
def openerOf : Call → IO Opener
  | .analyzeLog _ (.text path) => do
    let opened ← openLog (Folder.pathText path)
    return fun _ => opened
  | _ => return fun _ => .error .missing

def answerLine (s : Service) (line : String) : IO (Service × Value) := do
  match Json.read line with
  | .error fault => return (s, .object [("error", .text fault.message)])
  | .ok (.object fields) =>
    match Value.field fields "tool", Value.field fields "args" with
    | .text name, .object arguments =>
      match Call.ofName? name arguments with
      | none => return (s, .object [("error", .text s!"Unknown tool: {name}")])
      | some call =>
        let (s, reply) := s.perform (← openerOf call) .listening call
        for uri in reply.notified do
          IO.println (Json.compact (.object [("updated", .text uri)]))
        return (s, Service.answerValue reply.answer)
    | _, _ =>
      return (s, Service.answerValue (s.storedResults .null))
  | .ok _ => return (s, .object [("error", .text "A call must be an object")])

/-- Answers calls until the input ends. -/
partial def serve (input output : IO.FS.Stream) (s : Service) : IO Unit := do
  let line ← input.getLine
  if line.isEmpty then return
  if Text.strip line = "" then serve input output s
  else
    let (s, answer) ← answerLine s line
    output.putStrLn (Json.compact answer)
    output.flush
    serve input output s

end BuildDigest.Program

/-- Runs the program and answers its exit code. -/
def main (arguments : List String) : IO UInt32 := do
  match BuildDigest.Startup.prepare arguments (← BuildDigest.Program.environment) with
  | .error .help => return 0
  | .error (.refused fault) =>
    IO.eprintln s!"error: {fault.message}"
    return 2
  | .error (.badLevel fault) =>
    IO.eprintln fault.message
    return 1
  | .ok ready =>
    let cwd ← IO.currentDir
    BuildDigest.Program.serve (← IO.getStdin) (← IO.getStdout)
      (BuildDigest.Service.start (toString cwd) ready.settings)
    return 0
