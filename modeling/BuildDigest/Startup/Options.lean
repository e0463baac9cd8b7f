import BuildDigest.Text.Digit
import BuildDigest.Text.Quoted
import BuildDigest.Value.Basic

/-!
# Options of the command line

The program takes a log level, a switch that turns the tree off, and a request
for help. A long option may be shortened as long as it stays unambiguous, a value
may follow after an equals sign, and the last value counts. Two dashes end the
options.

All arguments are sorted first, which is where an ambiguous one is refused; then
they are taken from left to right.

Main definitions.
* `Word.ofArgument` — what a single argument is.
* `Options.read` — the options of a list of arguments.
-/

namespace BuildDigest

/-- What the arguments of the program say. -/
structure Options where
  /-- The level that is asked for: `null` for none, and an empty list where two dashes stand
  for the value. -/
  logLevel : Value := .null
  noTree : Bool := false
  deriving Repr

namespace Options

/-- The options that the program knows. -/
inductive Flag
  | help
  | logLevel
  | noTree
  deriving DecidableEq, Repr

def spellings : List (String × Flag) :=
  [("-h", .help), ("--help", .help), ("--log-level", .logLevel), ("--no-build-tree", .noTree)]

def Flag.name : Flag → String
  | .help => "-h/--help"
  | .logLevel => "--log-level"
  | .noTree => "--no-build-tree"

/-- What an argument is. -/
inductive Word
  /-- An argument that is no option. -/
  | plain
  /-- The end of the options. -/
  | dashes
  /-- An argument that looks like an option and is none. -/
  | unknown
  /-- An option, in its long or short spelling, with the value in the same argument if there
  is one: after an equals sign, or joined to a short option. -/
  | option (flag : Flag) (isShort : Bool) (attached : Option (List Char))
  deriving DecidableEq, Repr

/-- Why the arguments are refused. -/
inductive Fault
  | ambiguous (argument : String) (spellings : List String)
  | missingValue (flag : Flag)
  | unwantedValue (flag : Flag) (text : String)
  | unrecognized (arguments : List String)
  deriving DecidableEq, Repr

def Fault.message : Fault → String
  | .ambiguous argument matching =>
    "ambiguous option: " ++ argument ++ " could match " ++ String.intercalate ", " matching
  | .missingValue flag => s!"argument {flag.name}: expected one argument"
  | .unwantedValue flag text =>
    s!"argument {flag.name}: ignored explicit argument {Text.quoted text}"
  | .unrecognized arguments => "unrecognized arguments: " ++ String.intercalate " " arguments

/-- What the arguments ask for. -/
inductive Outcome
  | run (options : Options)
  | help
  | refuse (fault : Fault)
  deriving Repr

-- ---------------------------------------------------------------------------
-- Sorting arguments
-- ---------------------------------------------------------------------------

def isShortSpelling (s : String) : Bool :=
  s.length == 2

/-- The text before the first equals sign, and the text after it if there is one. -/
def splitEquals (cs : List Char) : List Char × Option (List Char) :=
  let before := cs.takeWhile (· != '=')
  match cs.dropWhile (· != '=') with
  | [] => (before, none)
  | _ :: after => (before, some after)

/-- Whether a text is a negative number. A line feed may follow. -/
def isNegativeNumber (cs : List Char) : Bool :=
  match cs with
  | '-' :: rest =>
    let rest := if rest.getLast? = some '\n' then rest.dropLast else rest
    match rest.dropWhile Text.isDecimal with
    | [] => !rest.isEmpty
    | '.' :: decimals => !decimals.isEmpty && decimals.all Text.isDecimal
    | _ => false
  | _ => false

def spelled? (cs : List Char) : Option (String × Flag) :=
  spellings.find? fun s => s.1.toList == cs

/-- The options that a text may be short for, and the value in it. -/
def shortened (cs : List Char) : List (String × Flag) × Option (List Char) :=
  match cs with
  | '-' :: '-' :: _ =>
    let (before, after) := splitEquals cs
    (spellings.filter fun s => before.isPrefixOf s.1.toList, after)
  | _ =>
    (spellings.filter fun s => s.1.toList == cs.take 2, some (cs.drop 2))

/-- What an argument in front of the end of the options is. -/
def Word.ofArgument (argument : String) : Except Fault Word :=
  let cs := argument.toList
  if cs.head? ≠ some '-' then .ok .plain
  else
    match spelled? cs with
    | some (spelling, flag) => .ok (.option flag (isShortSpelling spelling) none)
    | none =>
      if cs.length = 1 then .ok .plain
      else
        match (splitEquals cs).2, spelled? (splitEquals cs).1 with
        | some text, some (spelling, flag) =>
          .ok (.option flag (isShortSpelling spelling) (some text))
        | _, _ =>
          match shortened cs with
          | ([(spelling, flag)], attached) =>
            .ok (.option flag (isShortSpelling spelling) attached)
          | (_ :: _ :: _, _) => .error (.ambiguous argument ((shortened cs).1.map (·.1)))
          | ([], _) =>
            if isNegativeNumber cs || cs.contains ' ' then .ok .plain else .ok .unknown

/-- What the arguments are, each with its text. -/
def sort : List String → Except Fault (List (String × Word))
  | [] => .ok []
  | argument :: rest =>
    if argument = "--" then .ok ((argument, .dashes) :: rest.map fun a => (a, .plain))
    else do
      let word ← Word.ofArgument argument
      let words ← sort rest
      return (argument, word) :: words

-- ---------------------------------------------------------------------------
-- Taking arguments
-- ---------------------------------------------------------------------------

/-- The fault of a text joined to the short request for help, if it is one: its letters are
read as further short options, of which there is only this one. -/
def helpFault : List Char → Option Fault
  | ['h'] => none
  | 'h' :: rest => helpFault rest
  | text => some (.unwantedValue .help (String.ofList text))

/-- The level that a text asks for. Two dashes leave an empty list of values. -/
def levelOf (text : List Char) : Value :=
  if text = ['-', '-'] then .list [] else .text (String.ofList text)

/-- The arguments taken from left to right, after the options and the stray arguments, the
last one first, that were met before. -/
def take (options : Options) (stray : List String) : List (String × Word) → Outcome
  | [] => if stray.isEmpty then .run options else .refuse (.unrecognized stray.reverse)
  | (argument, word) :: rest =>
    match word with
    | .plain | .dashes | .unknown => take options (argument :: stray) rest
    | .option .logLevel _ (some attached) =>
      take { options with logLevel := levelOf attached } stray rest
    | .option .logLevel _ none =>
      match rest with
      | (value, .plain) :: rest => take { options with logLevel := .text value } stray rest
      | _ => .refuse (.missingValue .logLevel)
    | .option .noTree _ none => take { options with noTree := true } stray rest
    | .option .noTree _ (some attached) =>
      .refuse (.unwantedValue .noTree (String.ofList attached))
    | .option .help _ none => .help
    | .option .help isShort (some attached) =>
      if isShort then
        match helpFault attached with
        | some fault => .refuse fault
        | none => .help
      else .refuse (.unwantedValue .help (String.ofList attached))

def read (arguments : List String) : Outcome :=
  match sort arguments with
  | .error fault => .refuse fault
  | .ok words => take {} [] words

end Options

end BuildDigest
