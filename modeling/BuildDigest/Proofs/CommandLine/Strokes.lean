import BuildDigest.Proofs.CommandLine.Image

/-!
# What parts keep of a line

A line is scanned in strokes: a backslash together with the character after it, or one
character. A stroke leaves its text in the parts or nothing, depending on whether it is
quoted, so the parts put together can be told from the strokes alone. Where a line ends
outside quotes and on a whole stroke, the scan of what comes after a gap starts afresh.

* `Stroke`, `strokes` — the units of the scan.
* `residue` — what strokes leave.
* `Settled` — the lines after which a new part can start.
* `gather_append_gap`, `flatten_gather` — gathering, of lines put together and as a whole.

The main result is `parts_append_iff_settled`.
-/

namespace BuildDigest.CommandLine

/-- A unit of the scan. -/
inductive Stroke
  /-- A character by itself. -/
  | single (c : Char)
  /-- A backslash with the character after it. -/
  | pair (c : Char)
  deriving DecidableEq, Repr

/-- A line cut into strokes. Only at its end can a backslash stand by itself. -/
def strokes : List Char → List Stroke
  | [] => []
  | [c] => [.single c]
  | c :: d :: rest => if c = '\\' then .pair d :: strokes rest else .single c :: strokes (d :: rest)

namespace Stroke

/-- Whether what follows a stroke is quoted, if the stroke is or is not. -/
def quotes (quoted : Bool) : Stroke → Bool
  | .single c => if c = '"' then !quoted else quoted
  | .pair _ => quoted

/-- What a stroke leaves: a backslash in front of a double quote is dropped, and so are a double
quote by itself and a gap by itself outside quotes. -/
def left (quoted : Bool) : Stroke → List Char
  | .single c => if c = '"' ∨ (isGap c = true ∧ quoted = false) then [] else [c]
  | .pair c => if c = '"' then ['"'] else ['\\', c]

/-- The mark of a stroke. -/
def mark : Stroke → Mark
  | .single c => markOf c
  | .pair c => .keep (escaped c)

end Stroke

/-- What strokes leave, one after the other. -/
def residue (quoted : Bool) : List Stroke → List Char
  | [] => []
  | s :: rest => s.left quoted ++ residue (s.quotes quoted) rest

/-- The text that the parts of a line keep. -/
def kept (line : String) : String :=
  String.ofList (residue false (strokes line.toList))

/-- A line ends outside quotes and not on a backslash by itself. -/
structure Settled (line : String) : Prop where
  outside : (strokes line.toList).foldl Stroke.quotes false = false
  paired : (strokes line.toList).getLast? ≠ some (.single '\\')

-- ---------------------------------------------------------------------------
-- Strokes
-- ---------------------------------------------------------------------------

/-- A character that is no backslash is a stroke by itself. -/
theorem strokes_cons {c : Char} (hc : c ≠ '\\') (rest : List Char) :
    strokes (c :: rest) = .single c :: strokes rest := by
  cases rest with
  | nil => rfl
  | cons d rest => rw [strokes, if_neg hc]

theorem strokes_pair (c : Char) (rest : List Char) :
    strokes ('\\' :: c :: rest) = .pair c :: strokes rest := by
  rw [strokes, if_pos rfl]

/-- The marks of a line are those of its strokes. -/
theorem marks_eq_map_strokes (line : List Char) : marks line = (strokes line).map Stroke.mark := by
  induction line using marks.induct with
  | case1 => rfl
  | case2 c => rfl
  | case3 d rest ih =>
    rw [marks_pair, strokes_pair, List.map_cons, ih]
    rfl
  | case4 c d rest hc ih =>
    rw [marks_cons hc, strokes_cons hc, List.map_cons, ih]
    rfl

/-- A line that does not end on a backslash by itself is cut into strokes independently of what
follows. One that does takes the next character into its last stroke. -/
theorem strokes_append (line : List Char) :
    ((strokes line).getLast? ≠ some (.single '\\') ∧
      ∀ later, strokes (line ++ later) = strokes line ++ strokes later) ∨
    ∃ front, strokes line = front ++ [.single '\\'] ∧
      ∀ c later, strokes (line ++ c :: later) = front ++ .pair c :: strokes later := by
  induction line using marks.induct with
  | case1 => exact Or.inl ⟨by simp [strokes], fun later => rfl⟩
  | case2 c =>
    by_cases hc : c = '\\'
    · subst hc
      exact Or.inr ⟨[], rfl, fun c later => strokes_pair c later⟩
    · exact Or.inl ⟨by simpa [strokes] using hc, fun later => strokes_cons hc later⟩
  | case3 d rest ih =>
    rw [strokes_pair]
    rcases ih with ⟨hLast, hAppend⟩ | ⟨front, hRest, hAppend⟩
    · refine Or.inl ⟨?_, fun later => ?_⟩
      · cases hStrokes : strokes rest with
        | nil => simp
        | cons s more => simpa [hStrokes] using hLast
      · rw [List.cons_append, List.cons_append, strokes_pair, hAppend, List.cons_append]
    · refine Or.inr ⟨.pair d :: front, by rw [hRest, List.cons_append], fun c later => ?_⟩
      rw [List.cons_append, List.cons_append, strokes_pair, hAppend, List.cons_append]
  | case4 c d rest hc ih =>
    rw [strokes_cons hc]
    rcases ih with ⟨hLast, hAppend⟩ | ⟨front, hRest, hAppend⟩
    · refine Or.inl ⟨?_, fun later => ?_⟩
      · cases hStrokes : strokes (d :: rest) with
        | nil => simpa using hc
        | cons s more => simpa [hStrokes] using hLast
      · rw [List.cons_append, strokes_cons hc, hAppend, List.cons_append]
    · refine Or.inr ⟨.single c :: front, by rw [hRest, List.cons_append], fun x later => ?_⟩
      rw [List.cons_append, strokes_cons hc, hAppend, List.cons_append]

/-- Later strokes leave what they leave after the earlier ones have opened or closed quotes. -/
theorem residue_append (quoted : Bool) (first later : List Stroke) :
    residue quoted (first ++ later) =
      residue quoted first ++ residue (first.foldl Stroke.quotes quoted) later := by
  induction first generalizing quoted with
  | nil => rfl
  | cons s rest ih => simp [residue, ih]

-- ---------------------------------------------------------------------------
-- Gathering
-- ---------------------------------------------------------------------------

/-- A stroke is kept, or it is a gap, or it is an end of a quoted stretch. -/
theorem Stroke.mark_cases (s : Stroke) :
    (∃ text, s.mark = .keep text ∧ ∀ quoted, s.left quoted = text ∧ s.quotes quoted = quoted) ∨
    (∃ c, s.mark = .gap c ∧ ∀ quoted, s.left quoted = (if quoted then [c] else []) ∧
      s.quotes quoted = quoted) ∨
    (s.mark = .quote ∧ ∀ quoted, s.left quoted = [] ∧ s.quotes quoted = !quoted) := by
  cases s with
  | pair c => exact Or.inl ⟨escaped c, rfl, fun quoted => ⟨rfl, rfl⟩⟩
  | single c =>
    by_cases hGap : isGap c = true
    · have hQuote : c ≠ '"' := by
        rintro rfl
        exact absurd hGap (by decide)
      refine Or.inr (Or.inl ⟨c, by simp [mark, markOf, hGap], fun quoted => ?_⟩)
      cases quoted <;> simp [left, quotes, hGap, hQuote]
    · by_cases hQuote : c = '"'
      · subst hQuote
        exact Or.inr (Or.inr ⟨rfl, fun quoted => ⟨rfl, rfl⟩⟩)
      · refine Or.inl ⟨[c], by simp [mark, markOf, hGap, hQuote], fun quoted => ?_⟩
        simp [left, quotes, hGap, hQuote]

/-- Empty parts add no character. -/
theorem flatten_finish (part : List Char) : (finish part).flatten = part := by
  unfold finish
  split
  · simp_all
  · simp

/-- Gathering loses nothing of what the strokes leave, and adds nothing. -/
theorem flatten_gather (quoted : Bool) (ss : List Stroke) :
    (gather quoted (ss.map Stroke.mark)).1 ++ (gather quoted (ss.map Stroke.mark)).2.flatten =
      residue quoted ss := by
  induction ss generalizing quoted with
  | nil => rfl
  | cons s rest ih =>
    rw [List.map_cons, residue, ← ih]
    rcases s.mark_cases with ⟨text, hMark, hStroke⟩ | ⟨c, hMark, hStroke⟩ | ⟨hMark, hStroke⟩
    · simp [hMark, hStroke, gather]
    · cases quoted with
      | true => simp [hMark, hStroke, gather]
      | false => simp [hMark, hStroke, gather, flatten_finish]
    · simp [hMark, hStroke, gather]

/-- What follows strokes outside quotes and starts with a gap adds its parts and nothing else. -/
theorem gather_append_gap {quoted : Bool} {ss : List Stroke}
    (hOutside : ss.foldl Stroke.quotes quoted = false) (w : Char) (later : List Mark) :
    gather quoted (ss.map Stroke.mark ++ .gap w :: later) =
      ((gather quoted (ss.map Stroke.mark)).1, (gather quoted (ss.map Stroke.mark)).2 ++
        (finish (gather false later).1 ++ (gather false later).2)) := by
  induction ss generalizing quoted with
  | nil =>
    obtain rfl : quoted = false := hOutside
    simp [gather]
  | cons s rest ih =>
    rw [List.map_cons, List.cons_append]
    rw [List.foldl_cons] at hOutside
    rcases s.mark_cases with ⟨text, hMark, hStroke⟩ | ⟨c, hMark, hStroke⟩ | ⟨hMark, hStroke⟩
    · rw [(hStroke quoted).2] at hOutside
      simp [hMark, gather, ih hOutside]
    · rw [(hStroke quoted).2] at hOutside
      cases quoted with
      | true => simp [hMark, gather, ih hOutside]
      | false => simp [hMark, gather, ih hOutside]
    · rw [(hStroke quoted).2] at hOutside
      simp [hMark, gather, ih hOutside]

-- ---------------------------------------------------------------------------
-- Parts
-- ---------------------------------------------------------------------------

/-- The parts in a row are what the strokes of the line leave. -/
theorem flatten_partChars (line : List Char) :
    (partChars line).flatten = residue false (strokes line) := by
  rw [partChars, marks_eq_map_strokes, ← flatten_gather]
  simp [flatten_finish]

/-- The parts of a line put together are what it keeps. -/
theorem join_parts (line : String) : String.join (parts line) = kept line := by
  rw [← String.toList_inj, String.toList_join, kept, String.toList_ofList, parts, List.flatMap_map,
    ← flatten_partChars, List.flatten_eq_flatMap]
  simp

/-- A gap behind a line that is settled parts it from what follows. -/
theorem Settled.parts_append {line : String} (h : Settled line) {w : Char} (hGap : isGap w = true)
    (later : String) :
    parts (line ++ String.singleton w ++ later) = parts line ++ parts later := by
  rcases strokes_append line.toList with ⟨-, hAppend⟩ | ⟨front, hLast, -⟩
  · have hNotSlash : w ≠ '\\' := by
      rintro rfl
      exact absurd hGap (by decide)
    have hMarks : marks (line.toList ++ w :: later.toList) =
        (strokes line.toList).map Stroke.mark ++ .gap w :: marks later.toList := by
      rw [marks_eq_map_strokes, hAppend, strokes_cons hNotSlash, marks_eq_map_strokes]
      simp [Stroke.mark, markOf, hGap]
    have hParts : partChars (line.toList ++ w :: later.toList) =
        partChars line.toList ++ partChars later.toList := by
      rw [partChars, hMarks, gather_append_gap h.outside, partChars, partChars,
        marks_eq_map_strokes line.toList]
      simp
    simp [parts, hParts]
  · exact absurd (by rw [hLast, List.getLast?_concat]) h.paired

/-- After a line that is not settled a space belongs to the last part, and is kept. -/
theorem kept_append_space {line : String} (h : ¬ Settled line) :
    (kept (line ++ " ")).length = (kept line).length + 1 := by
  have hSpace : (line ++ " ").toList = line.toList ++ ' ' :: [] := by simp
  rw [kept, kept, hSpace, String.length_ofList, String.length_ofList]
  rcases strokes_append line.toList with ⟨hPaired, hAppend⟩ | ⟨front, hLast, hAppend⟩
  · -- the line ends on a whole stroke, so it ends inside quotes
    have hQuoted : (strokes line.toList).foldl Stroke.quotes false = true := by
      by_contra hOutside
      exact h ⟨by simpa using hOutside, hPaired⟩
    rw [hAppend, residue_append, hQuoted]
    simp [strokes, residue, Stroke.left]
  · rw [hAppend, hLast, residue_append, residue_append]
    simp [strokes, residue, Stroke.left, isGap]

/-- A line is settled exactly if every gap behind it parts it from whatever follows. No line has
empty parts, and its parts put together are what it keeps. -/
theorem parts_append_iff_settled :
    (∀ line, Settled line ↔ ∀ w later, isGap w = true →
      parts (line ++ String.singleton w ++ later) = parts line ++ parts later) ∧
    ∀ line, (∀ p ∈ parts line, p ≠ "") ∧ String.join (parts line) = kept line := by
  refine ⟨fun line => ⟨fun h w later hGap => h.parts_append hGap later, ?_⟩, fun line =>
    ⟨(attainable_parts line).nonempty, join_parts line⟩⟩
  intro hParts
  by_contra hUnsettled
  have hSpace : parts (line ++ " ") = parts line := by
    simpa [parts, partChars, marks, gather, finish] using hParts ' ' "" (by decide)
  have hKept : kept (line ++ " ") = kept line := by
    rw [← join_parts, hSpace, join_parts]
  have hLonger := kept_append_space hUnsettled
  rw [hKept] at hLonger
  omega

example : kept "a\\ \"b \\\"\" c\\" = "a\\ b \"c\\" := by decide

end BuildDigest.CommandLine
