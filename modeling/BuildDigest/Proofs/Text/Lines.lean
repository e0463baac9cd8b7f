import BuildDigest.Text.Blank

/-!
# Texts as written lines

A text is written line by line: each line is followed by a line feed, by a carriage
return, or by both, and the last one may be left unfinished. A carriage return that
ends a line by itself has no line feed after it, since the two together are one end.

Main statements.
* `written_iff` — the lines of a text are the lines that it is written by, whatever
  their ends; so every text is written by some lines, and by no others.
* `settledLines_prefix` — the lines that are settled where a text breaks off are the first lines
  of the whole text.
-/

namespace BuildDigest.Text

/-- A character that ends no line. -/
def IsInner (c : Char) : Prop :=
  c ≠ '\n' ∧ c ≠ '\r'

/-- A text is written by lines, each with its end. -/
inductive Written : List Char → List (List Char) → Prop
  | empty : Written [] []
  /-- The last line may lack an end; then it holds a character. -/
  | unfinished {line : List Char} (hLine : ∀ c ∈ line, IsInner c) (hSome : line ≠ []) :
    Written line [line]
  | feed {line rest : List Char} {rows : List (List Char)} (hLine : ∀ c ∈ line, IsInner c)
    (hRest : Written rest rows) : Written (line ++ '\n' :: rest) (line :: rows)
  | both {line rest : List Char} {rows : List (List Char)} (hLine : ∀ c ∈ line, IsInner c)
    (hRest : Written rest rows) : Written (line ++ '\r' :: '\n' :: rest) (line :: rows)
  | carriage {line rest : List Char} {rows : List (List Char)} (hLine : ∀ c ∈ line, IsInner c)
    (hAlone : rest.head? ≠ some '\n') (hRest : Written rest rows) :
    Written (line ++ '\r' :: rest) (line :: rows)

-- ---------------------------------------------------------------------------
-- Cutting at the first line end
-- ---------------------------------------------------------------------------

/-- A character that ends no line comes into the first line. -/
theorem cutLines_cons_inner {c : Char} (hc : IsInner c) (cs : List Char) :
    cutLines (c :: cs) = consLine c (cutLines cs) := by
  rw [cutLines.eq_def]
  split
  · next h => simp at h
  · next h => exact absurd (List.cons.inj h).1 hc.2
  · next h =>
    obtain ⟨rfl, rfl⟩ := List.cons.inj h
    rw [if_neg (not_or.mpr hc)]

/-- A carriage return without a line feed behind it ends a line by itself. -/
theorem cutLines_return {cs : List Char} (hAlone : cs.head? ≠ some '\n') :
    cutLines ('\r' :: cs) = ([] :: (cutLines cs).1, (cutLines cs).2) := by
  rw [cutLines.eq_def]
  split
  · next h => simp at h
  · next h =>
    obtain ⟨-, rfl⟩ := List.cons.inj h
    exact absurd rfl hAlone
  · next h =>
    obtain ⟨rfl, rfl⟩ := List.cons.inj h
    rw [if_pos (.inr rfl)]

/-- A line before a text whose first line is empty becomes this line. -/
theorem cutLines_append {line cs tail : List Char} {rows : List (List Char)}
    (hLine : ∀ c ∈ line, IsInner c) (hCut : cutLines cs = ([] :: rows, tail)) :
    cutLines (line ++ cs) = (line :: rows, tail) := by
  induction line with
  | nil => exact hCut
  | cons c line ih =>
    rw [List.forall_mem_cons] at hLine
    rw [List.cons_append, cutLines_cons_inner hLine.1, ih hLine.2, consLine]

/-- Characters without a line end are one unfinished line. -/
theorem cutLines_inner {line : List Char} (hLine : ∀ c ∈ line, IsInner c) :
    cutLines line = ([], line) := by
  induction line with
  | nil => rfl
  | cons c line ih =>
    rw [List.forall_mem_cons] at hLine
    rw [cutLines_cons_inner hLine.1, ih hLine.2, consLine]

/-- One more line in front, where its end is cut off. -/
theorem lines_of_cutLines {cs rest line : List Char}
    (h : cutLines cs = (line :: (cutLines rest).1, (cutLines rest).2)) :
    lines cs = line :: lines rest := by
  simp only [lines, h]
  split <;> rfl

-- ---------------------------------------------------------------------------
-- The lines of a written text
-- ---------------------------------------------------------------------------

/-- Whatever ends the lines of a text have, cutting the text finds these lines. -/
theorem Written.lines_eq {cs : List Char} {rows : List (List Char)} (h : Written cs rows) :
    lines cs = rows := by
  induction h with
  | empty => rfl
  | unfinished hLine hSome =>
    rw [lines, cutLines_inner hLine]
    simp only [List.isEmpty_iff, hSome, if_false, List.nil_append]
  | feed hLine _ ih => rw [lines_of_cutLines (cutLines_append hLine rfl), ih]
  | both hLine _ ih => rw [lines_of_cutLines (cutLines_append hLine rfl), ih]
  | carriage hLine hAlone _ ih =>
    rw [lines_of_cutLines (cutLines_append hLine (cutLines_return hAlone)), ih]

/-- One more character that ends no line lengthens the first line. -/
theorem Written.cons {c : Char} (hc : IsInner c) {cs : List Char} {rows : List (List Char)}
    (h : Written cs rows) : ∃ rows', Written (c :: cs) rows' := by
  cases h with
  | empty => exact ⟨_, .unfinished (List.forall_mem_singleton.mpr hc) (List.cons_ne_nil c [])⟩
  | unfinished hLine hSome =>
    exact ⟨_, .unfinished (List.forall_mem_cons.mpr ⟨hc, hLine⟩) (List.cons_ne_nil c _)⟩
  | feed hLine hRest => exact ⟨_, .feed (List.forall_mem_cons.mpr ⟨hc, hLine⟩) hRest⟩
  | both hLine hRest => exact ⟨_, .both (List.forall_mem_cons.mpr ⟨hc, hLine⟩) hRest⟩
  | carriage hLine hAlone hRest =>
    exact ⟨_, .carriage (List.forall_mem_cons.mpr ⟨hc, hLine⟩) hAlone hRest⟩

/-- Every text is written by some lines: a character after the other, it goes on with a line or ends
one. -/
theorem exists_written (cs : List Char) : ∃ rows, Written cs rows := by
  -- The cases are those of cutting: what stands in front decides which end it is.
  induction cs using cutLines.induct with
  | case1 => exact ⟨[], .empty⟩
  | case2 rest _ _ _ ih =>
    obtain ⟨rows, hRest⟩ := ih
    exact ⟨_, @Written.both [] _ _ (List.forall_mem_nil _) hRest⟩
  | case3 c rest hNext hEnd _ _ _ ih =>
    obtain ⟨rows, hRest⟩ := ih
    rcases hEnd with rfl | rfl
    · exact ⟨_, @Written.feed [] _ _ (List.forall_mem_nil _) hRest⟩
    · refine ⟨_, @Written.carriage [] _ _ (List.forall_mem_nil _) ?_ hRest⟩
      intro hHead
      obtain ⟨more, rfl⟩ := List.head?_eq_some_iff.mp hHead
      exact hNext more rfl rfl
  | case4 c rest _ hInner ih =>
    obtain ⟨rows, hRest⟩ := ih
    exact hRest.cons (not_or.mp hInner)

/-- The lines of a text are those that it is written by. -/
theorem written_iff {cs : List Char} {rows : List (List Char)} :
    Written cs rows ↔ lines cs = rows := by
  refine ⟨Written.lines_eq, ?_⟩
  rintro rfl
  obtain ⟨rows, h⟩ := exists_written cs
  rwa [h.lines_eq]

-- ---------------------------------------------------------------------------
-- Lines of a text that goes on
-- ---------------------------------------------------------------------------

/-- A character more in front changes the first line only, so one cut stays the start of the
other. -/
theorem consLine_prefix (c : Char) {cut cut' : List (List Char) × List Char}
    (h : cut.1 <+: cut'.1) : (consLine c cut).1 <+: (consLine c cut').1 := by
  obtain ⟨lines, tail⟩ := cut
  obtain ⟨lines', tail'⟩ := cut'
  cases lines with
  | nil => exact List.nil_prefix
  | cons line lines =>
    obtain ⟨more, rfl⟩ := h
    exact ⟨more, rfl⟩

/-- The lines that a text has finished stay its first ones when it goes on, unless it breaks off
between the two characters of a line end. -/
theorem cutLines_prefix {cs more : List Char}
    (hApart : cs.getLast? = some '\r' → more.head? ≠ some '\n') :
    (cutLines cs).1 <+: (cutLines (cs ++ more)).1 := by
  have hTail (c : Char) (rest : List Char) (h : rest.getLast? = some '\r') :
      (c :: rest).getLast? = some '\r' := by
    rw [List.getLast?_cons, h, Option.getD_some]
  induction cs using cutLines.induct with
  | case1 => exact List.nil_prefix
  | case2 rest _ _ _ ih =>
    have hRest := ih fun h => hApart (hTail _ _ (hTail _ _ h))
    rw [List.cons_append, List.cons_append, cutLines, cutLines]
    exact (List.prefix_cons_inj []).mpr hRest
  | case3 c rest hNext hEnd _ _ _ ih =>
    have hRest := ih fun h => hApart (hTail _ _ h)
    rcases hEnd with rfl | rfl
    · exact (List.prefix_cons_inj []).mpr hRest
    · have hAlone : rest.head? ≠ some '\n' := by
        intro hHead
        obtain ⟨others, rfl⟩ := List.head?_eq_some_iff.mp hHead
        exact hNext others rfl rfl
      have hStill : (rest ++ more).head? ≠ some '\n' := by
        cases rest with
        | nil => exact hApart rfl
        | cons _ _ => exact hAlone
      rw [List.cons_append, cutLines_return hAlone, cutLines_return hStill]
      exact (List.prefix_cons_inj []).mpr hRest
  | case4 c rest _ hInner ih =>
    have hRest := ih fun h => hApart (hTail _ _ h)
    rw [List.cons_append, cutLines_cons_inner (not_or.mp hInner),
      cutLines_cons_inner (not_or.mp hInner)]
    exact consLine_prefix c hRest

/-- The lines that are settled where a text breaks off are the first lines of the whole text. -/
theorem settledLines_prefix {cs whole : List Char} (h : cs <+: whole) :
    settledLines cs <+: lines whole := by
  obtain ⟨more, rfl⟩ := h
  have hFinished : (cutLines (cs ++ more)).1 <+: lines (cs ++ more) := by
    unfold lines
    dsimp only
    split
    · exact List.prefix_rfl
    · exact List.prefix_append _ _
  refine List.IsPrefix.trans ?_ hFinished
  unfold settledLines
  dsimp only
  split
  · next hLast =>
    obtain ⟨kept, rfl⟩ := List.getLast?_eq_some_iff.mp hLast
    rw [List.dropLast_concat, List.append_assoc]
    exact cutLines_prefix fun _ => by simp
  · next hLast => exact cutLines_prefix fun h => absurd h hLast

end BuildDigest.Text
