import BuildDigest.Text.Digit
import BuildDigest.Text.Quoted

/-!
# Reading whole numbers

A whole number is read from decimal digits of any script. A text whose leading
digits are more than 4300 is refused before anything else about it is looked at.
-/

namespace BuildDigest.Whole

def digitLimit : Nat := 4300

/-- Why a text is no whole number. -/
inductive Fault
  | tooLong (digits : Nat)
  | malformed (text : String)
  deriving DecidableEq, Repr

/-- The value of a run of digits after those already read. -/
def valueFrom (acc : Nat) : List Char → Nat
  | [] => acc
  | c :: rest => valueFrom (acc * 10 + (Text.decimalValue? c).getD 0) rest

/-- The whole number written by a text of digits. -/
def read (s : String) : Except Fault Nat :=
  let cs := s.toList
  let digits := cs.takeWhile Text.isDecimal
  if digitLimit < digits.length then .error (.tooLong digits.length)
  else if digits.length < cs.length ∨ cs.isEmpty then .error (.malformed s)
  else .ok (valueFrom 0 digits)

/-- How many characters of a malformed number a message shows. -/
def shownLength : Nat := 200

def Fault.message : Fault → String
  | .tooLong digits =>
    s!"Exceeds the limit ({digitLimit} digits) for integer string conversion: " ++
      s!"value has {digits} digits; use sys.set_int_max_str_digits() to increase the limit"
  | .malformed text =>
    "invalid literal for int() with base 10: " ++
      String.ofList ((Text.quoted text).toList.take shownLength)

end BuildDigest.Whole
