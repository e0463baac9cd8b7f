import BuildDigest.Settings

/-!
# Log levels

A level is named in any case, on the command line or else in the environment. A
name that is none of the levels means the usual level, except for two names that
are known and stand for something else than a level.

Main definition: `LogLevel.choose`.
-/

namespace BuildDigest.LogLevel

def levels : List (String × Nat) :=
  [ ("NOTSET", 0), ("DEBUG", 10), ("INFO", 20), ("WARN", 30), ("WARNING", 30), ("ERROR", 40),
    ("CRITICAL", 50), ("FATAL", 50) ]

def usual : Nat := 20

def unset : Nat := 30

/-- The known name that stands for a text. -/
def formatName : String :=
  "BASIC_FORMAT"

/-- The known name that stands for a table. -/
def stylesName : String :=
  "_STYLES"

/-- Why no level is chosen. -/
inductive Fault
  /-- What is asked for is no text. -/
  | notText (kind : Value.Kind)
  /-- The known name that stands for a text was given. -/
  | format
  /-- The known name that stands for a table was given. -/
  | styles
  deriving DecidableEq, Repr

/-- The rows of the table that a known name stands for: a key, a class and a text. -/
def styleRows : List (String × String × String) :=
  [ ("%", "PercentStyle", "%(levelname)s:%(name)s:%(message)s"),
    ("\x7b", "StrFormatStyle", "\x7blevelname\x7d:\x7bname\x7d:\x7bmessage\x7d"),
    ("$", "StringTemplateStyle", "$\x7blevelname\x7d:$\x7bname\x7d:$\x7bmessage\x7d") ]

/-- A row of the table as it is shown. -/
def styleText (row : String × String × String) : String :=
  s!"'{row.1}': (<class 'logging.{row.2.1}'>, '{row.2.2}')"

def Fault.message : Fault → String
  | .notText kind => (BuildDigest.Fault.unusable kind .upper).message
  | .format => "Unknown level: '%(levelname)s:%(name)s:%(message)s'"
  | .styles =>
    "Level not an integer or a valid string: \x7b" ++ ", ".intercalate (styleRows.map styleText) ++
      "\x7d"

def ofName (name : String) : Except Fault Nat :=
  let folded := String.ofList (name.toList.flatMap Text.capitals)
  if folded = formatName then .error .format
  else if folded = stylesName then .error .styles
  else .ok ((levels.lookup folded).getD usual)

/-- The level to log at: the one asked for, or else the one of the environment. -/
def choose (asked : Value) (env : Environment) : Except Fault Nat :=
  if asked.holds then
    match asked with
    | .text name => ofName name
    | v => .error (.notText v.kind)
  else ofName ((env.lookup "LOG_LEVEL").getD "INFO")

end BuildDigest.LogLevel
