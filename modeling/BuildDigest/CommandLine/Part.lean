/-!
# Parts of a command line

A compiler call is logged as one line. A gap outside quotes parts it; a double
quote opens or closes a quoted stretch and is dropped; a backslash keeps the
character after it whatever that is, and only before a double quote it is itself
dropped. Empty parts are not reported, and an open quote or a single backslash
at the end does no harm.

The line is first read as marks, one for every character or pair that belongs
together, and the marks are then gathered into parts.

Main definitions: `marks`, `gather`, `parts`.
-/

namespace BuildDigest.CommandLine

/-- A gap: one of the six ASCII white space characters. -/
def isGap (c : Char) : Bool :=
  c == ' ' || c == '\t' || c == '\n' || c == '\x0b' || c == '\x0c' || c == '\r'

/-- What a character of a line, or a pair of them, is for. -/
inductive Mark
  /-- Text that belongs to a part wherever it stands. -/
  | keep (text : List Char)
  /-- A gap. -/
  | gap (c : Char)
  /-- An end of a quoted stretch. -/
  | quote
  deriving DecidableEq, Repr

/-- The text of a backslash and the character after it. -/
def escaped (c : Char) : List Char :=
  if c = '"' then ['"'] else ['\\', c]

/-- The mark of a character that no backslash precedes. -/
def markOf (c : Char) : Mark :=
  if isGap c then .gap c else if c = '"' then .quote else .keep [c]

def marks : List Char → List Mark
  | [] => []
  | [c] => [markOf c]
  | c :: d :: rest =>
    if c = '\\' then .keep (escaped d) :: marks rest else markOf c :: marks (d :: rest)

def finish (part : List Char) : List (List Char) :=
  if part = [] then [] else [part]

/-- What marks add to the part in front of them, and the parts after it. The flag tells
whether the marks start inside a quoted stretch. -/
def gather (quoted : Bool) : List Mark → List Char × List (List Char)
  | [] => ([], [])
  | .keep text :: rest =>
    let (part, parts) := gather quoted rest
    (text ++ part, parts)
  | .gap c :: rest =>
    let (part, parts) := gather quoted rest
    if quoted then (c :: part, parts) else ([], finish part ++ parts)
  | .quote :: rest => gather (!quoted) rest

def partChars (line : List Char) : List (List Char) :=
  let (part, parts) := gather false (marks line)
  finish part ++ parts

def parts (line : String) : List String :=
  (partChars line.toList).map String.ofList

theorem mem_finish {p part : List Char} : p ∈ finish part ↔ p = part ∧ part ≠ [] := by
  unfold finish
  split
  · simp_all
  · simp_all

theorem ne_nil_of_mem_gather {quoted : Bool} {ms : List Mark} {p : List Char}
    (h : p ∈ (gather quoted ms).2) : p ≠ [] := by
  induction ms generalizing quoted with
  | nil => simp [gather] at h
  | cons m rest ih =>
    cases m with
    | keep text => exact ih (by simpa [gather] using h)
    | gap c =>
      cases quoted with
      | true => exact ih (by simpa [gather] using h)
      | false =>
        simp only [gather, Bool.false_eq_true, if_false, List.mem_append, mem_finish] at h
        rcases h with ⟨rfl, h⟩ | h
        · exact h
        · exact ih h
    | quote => exact ih (by simpa [gather] using h)

theorem ne_nil_of_mem_partChars {line p : List Char} (h : p ∈ partChars line) : p ≠ [] := by
  simp only [partChars, List.mem_append, mem_finish] at h
  rcases h with ⟨rfl, h⟩ | h
  · exact h
  · exact ne_nil_of_mem_gather h

end BuildDigest.CommandLine
