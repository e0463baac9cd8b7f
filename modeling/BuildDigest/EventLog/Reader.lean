import BuildDigest.Event.Codec
import BuildDigest.EventLog.Folder
import BuildDigest.Json.Reader
import BuildDigest.Text.Blank
import BuildDigest.Text.Utf8

/-!
# Event logs

A log is a UTF-8 text with one event on each line that is not blank. Reading
yields the events before the first fault, and that fault. A fault of a line
names the log and the number of the line, counted from one over all lines. How deeply
the lists and objects of a line are read is for the caller to say.

Main definitions.
* `readLines` — the events of numbered lines.
* `readOctets` — the events of a file.
* `read` — the events of the log at a path.
-/

namespace BuildDigest.EventLog

/-- Why a log cannot be read, or not to its end. -/
inductive Fault
  /-- The path is not a text. -/
  | notPath (kind : Value.Kind)
  /-- The path holds the character NUL. -/
  | embeddedNull
  | unreadable (path : String) (fault : OpenFault)
  | invalidJson (path : String) (line : Nat) (fault : Json.Fault)
  | badEvent (path : String) (line : Nat) (fault : Event.Fault)
  /-- A whole number has more digits than are read. -/
  | longWhole (digits : Nat)
  /-- Lists and objects stand inside each other more deeply than they are read. -/
  | tooDeep (isObject : Bool)
  | undecodable (fault : Text.Utf8.Fault)
  deriving Repr

def Fault.message : Fault → String
  | .notPath kind => (BuildDigest.Fault.notPath kind).message
  | .embeddedNull => "embedded null byte"
  | .unreadable path fault => s!"Cannot read event log {path}: {fault.message path}"
  | .invalidJson path line fault => s!"{path}:{line}: invalid JSON: {fault.message}"
  | .badEvent path line fault => s!"{path}:{line}: {fault.message}"
  | .longWhole digits => (Whole.Fault.tooLong digits).message
  | .tooDeep isObject => (Json.Fault.tooDeep isObject).message
  | .undecodable fault => fault.message

/-- The event of a line that is not blank. -/
def readLine (depth : Nat) (path : String) (number : Nat) (line : List Char) :
    Except Fault Event :=
  match Json.readChars depth line with
  | .error (.longWhole digits) => .error (.longWhole digits)
  | .error (.tooDeep isObject) => .error (.tooDeep isObject)
  | .error fault => .error (.invalidJson path number fault)
  | .ok v =>
    match Event.ofValue v with
    | .error fault => .error (.badEvent path number fault)
    | .ok event => .ok event

/-- The events of lines numbered from a number on, up to the first fault. -/
def readLines (depth : Nat) (path : String) (number : Nat) :
    List (List Char) → List Event × Option Fault
  | [] => ([], none)
  | line :: rest =>
    let stripped := Text.stripChars line
    if stripped.isEmpty then readLines depth path (number + 1) rest
    else
      match readLine depth path number stripped with
      | .error fault => ([], some fault)
      | .ok event =>
        let (events, fault) := readLines depth path (number + 1) rest
        (event :: events, fault)

/-- The events of a file. If its octets are no text, the lines are read that are known to be
finished when the chunk with the fault comes. -/
def readOctets (depth : Nat) (path : String) (octets : List UInt8) :
    List Event × Option Fault :=
  match Text.Utf8.decode octets with
  | (cs, none) => readLines depth path 1 (Text.lines cs)
  | (_, some _) =>
    let (cs, fault) := Text.Utf8.decodeChunks [] [] octets
    match readLines depth path 1 (Text.settledLines cs) with
    | (events, none) => (events, fault.map .undecodable)
    | stopped => stopped

/-- The events of the log at a path, up to the first fault. -/
def read (opener : Opener) (path : Value) (depth : Nat := Json.depthLimit) :
    List Event × Option Fault :=
  match path with
  | .text path =>
    let shown := Folder.pathText path
    if '\x00' ∈ path.toList then ([], some .embeddedNull)
    else
      match opener path with
      | .error fault => ([], some (.unreadable shown fault))
      | .ok octets => readOctets depth shown octets
  | v => ([], some (.notPath v.kind))

end BuildDigest.EventLog
