import BuildDigest.CommandLine.Part
import BuildDigest.Value.Basic

/-!
# Arguments of a command line

The first part of a command line is the invoked program. Of the others, those
that start with a slash are switches, with a value after the first colon; the
rest are positional.
-/

namespace BuildDigest.CommandLine

/-- A classified part of a command line. -/
inductive Argument
  | positional (value : String)
  | switch (name : String) (value : Option String)
  deriving DecidableEq, Repr

namespace Argument

/-- The switch that follows a slash. An empty value counts as none. -/
def ofSwitchChars (body : List Char) : Argument :=
  let name := String.ofList (body.takeWhile (· != ':'))
  match body.dropWhile (· != ':') with
  | [] | [_] => .switch name none
  | _ :: value => .switch name (some (String.ofList value))

/-- The argument of a part after the first. -/
def ofPart (part : String) : Argument :=
  match part.toList with
  | '/' :: body => ofSwitchChars body
  | _ => .positional part

/-- The text of the value, if there is one. -/
def value? : Argument → Option String
  | .positional value => some value
  | .switch _ value => value

/-- The name of the switch, if it is one. -/
def switch? : Argument → Option String
  | .positional _ => none
  | .switch name _ => some name

def toValue (a : Argument) : Value :=
  .object [("switch", .ofText? a.switch?), ("value", .ofText? a.value?)]

end Argument

def classify : List String → List Argument
  | [] => []
  | program :: rest => .positional program :: rest.map Argument.ofPart

def arguments (line : String) : List Argument :=
  classify (parts line)

theorem length_classify (ps : List String) : (classify ps).length = ps.length := by
  cases ps with
  | nil => rfl
  | cons p rest => simp [classify]

end BuildDigest.CommandLine
