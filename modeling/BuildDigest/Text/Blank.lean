/-!
# Blanks and lines

The characters that count as blank at the ends of a text: the Unicode white
space characters together with the four information separators. The command
line tokenizer has a narrower set of its own, see `CommandLine.isGap`.

A line ends at a line feed, a carriage return, or a carriage return followed by
a line feed. What follows the last line end is an unfinished line.

Main definitions.
* `isBlank` — the class of blanks.
* `strip` — a text without the blanks at its two ends.
* `pieces` — a text cut at every occurrence of a separator.
* `lines`, `settledLines` — the lines of a text, and those known to be finished.
-/

namespace BuildDigest.Text

/-- A blank character: what stripping removes at the ends of a text. -/
def isBlank (c : Char) : Bool :=
  let n := c.toNat
  (0x09 ≤ n && n ≤ 0x0d) || (0x1c ≤ n && n ≤ 0x20) || n == 0x85 || n == 0xa0 || n == 0x1680 ||
    (0x2000 ≤ n && n ≤ 0x200a) || n == 0x2028 || n == 0x2029 || n == 0x202f || n == 0x205f ||
    n == 0x3000

/-- The characters up to the blanks at the end. -/
def trimEndChars (cs : List Char) : List Char :=
  (cs.reverse.dropWhile isBlank).reverse

/-- The characters between the blanks at the two ends. -/
def stripChars (cs : List Char) : List Char :=
  trimEndChars (cs.dropWhile isBlank)

/-- A text without the blanks at its end. -/
def trimEnd (s : String) : String :=
  String.ofList (trimEndChars s.toList)

/-- A text without the blanks at its ends. -/
def strip (s : String) : String :=
  String.ofList (stripChars s.toList)

/-- The runs of characters between the occurrences of a separator, empty runs included. -/
def pieceChars (sep : Char) : List Char → List (List Char)
  | [] => [[]]
  | c :: rest =>
    if c = sep then [] :: pieceChars sep rest
    else
      match pieceChars sep rest with
      | [] => [[c]]
      | p :: ps => (c :: p) :: ps

/-- A text cut at every occurrence of a separator. -/
def pieces (sep : Char) (s : String) : List String :=
  (pieceChars sep s.toList).map String.ofList

/-- The stripped, non-empty entries of a list written with semicolons. -/
def entries (s : String) : List String :=
  ((pieces ';' s).map strip).filter fun e => e != ""

-- ---------------------------------------------------------------------------
-- Lines
-- ---------------------------------------------------------------------------

/-- One more character in front of the first line. -/
def consLine (c : Char) : List (List Char) × List Char → List (List Char) × List Char
  | ([], tail) => ([], c :: tail)
  | (line :: lines, tail) => ((c :: line) :: lines, tail)

/-- The finished lines of a text, without their ends, and the unfinished rest. -/
def cutLines : List Char → List (List Char) × List Char
  | [] => ([], [])
  | '\r' :: '\n' :: rest => let (lines, tail) := cutLines rest; ([] :: lines, tail)
  | c :: rest =>
    if c = '\n' ∨ c = '\r' then let (lines, tail) := cutLines rest; ([] :: lines, tail)
    else consLine c (cutLines rest)

/-- All lines of a text; the unfinished one counts unless it is empty. -/
def lines (cs : List Char) : List (List Char) :=
  let (finished, tail) := cutLines cs
  if tail.isEmpty then finished else finished ++ [tail]

/-- The lines known to be finished when the text breaks off: a carriage return at
the very end may still be the first half of a line end. -/
def settledLines (cs : List Char) : List (List Char) :=
  let kept := if cs.getLast? = some '\r' then cs.dropLast else cs
  (cutLines kept).1

-- ---------------------------------------------------------------------------
-- Small facts
-- ---------------------------------------------------------------------------

/-- The runs between the occurrences of a separator are those of the library's own split. -/
theorem pieceChars_eq_splitOn (sep : Char) (cs : List Char) : pieceChars sep cs = cs.splitOn sep := by
  induction cs with
  | nil => rfl
  | cons c rest ih =>
    rw [pieceChars, List.splitOn_cons_eq_if_modifyHead, ih]
    by_cases hSep : c = sep
    · simp [hSep]
    · cases hRest : rest.splitOn sep with
      | nil => exact absurd hRest (List.splitOn_ne_nil sep rest)
      | cons p ps => simp [hSep]

section

variable {blanks : List Char}

theorem stripChars_blank_append (h : ∀ c ∈ blanks, isBlank c = true) (cs : List Char) :
    stripChars (blanks ++ cs) = stripChars cs := by
  rw [stripChars, List.dropWhile_append_of_pos h, stripChars]

theorem trimEndChars_append_blank (h : ∀ c ∈ blanks, isBlank c = true) (cs : List Char) :
    trimEndChars (cs ++ blanks) = trimEndChars cs := by
  have hBack : ∀ c ∈ blanks.reverse, isBlank c = true := by
    intro c hc
    exact h c (List.mem_reverse.mp hc)
  rw [trimEndChars, List.reverse_append, List.dropWhile_append_of_pos hBack, trimEndChars]

theorem stripChars_append_blank (h : ∀ c ∈ blanks, isBlank c = true) (cs : List Char) :
    stripChars (cs ++ blanks) = stripChars cs := by
  rw [stripChars, List.dropWhile_append, stripChars]
  split
  · -- nothing but blanks is left
    rename_i hNone
    have hEmpty : cs.dropWhile isBlank = [] := by simpa using hNone
    have hBlanks : blanks.dropWhile isBlank = [] := by
      rw [← List.append_nil blanks, List.dropWhile_append_of_pos h]
      rfl
    rw [hEmpty, hBlanks]
  · exact trimEndChars_append_blank h _

end

theorem stripChars_eq_self {cs : List Char} (h : ∀ c ∈ cs, isBlank c = false) :
    stripChars cs = cs := by
  have hFront : cs.dropWhile isBlank = cs := by
    cases cs with
    | nil => rfl
    | cons c cs => rw [List.dropWhile_cons_of_neg (by simp [h c])]
  have hBack : cs.reverse.dropWhile isBlank = cs.reverse := by
    cases hReverse : cs.reverse with
    | nil => rfl
    | cons c rest =>
      have hMem : c ∈ cs := List.mem_reverse.mp (hReverse ▸ List.mem_cons_self ..)
      rw [List.dropWhile_cons_of_neg (by simp [h c hMem])]
  rw [stripChars, hFront, trimEndChars, hBack, List.reverse_reverse]

/-- Every white space character of the ASCII class is blank. -/
theorem isBlank_of_isWhitespace {c : Char} (h : c.isWhitespace = true) : isBlank c = true := by
  simp only [Char.isWhitespace, Bool.or_eq_true, decide_eq_true_eq] at h
  rcases h with ((rfl | rfl) | rfl) | rfl <;> decide

end BuildDigest.Text
