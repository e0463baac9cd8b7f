import BuildDigest.Text.Pattern
import Mathlib.Data.List.Basic

/-!
# What patterns describe

Trying a pattern is a search. What it can find is told by rules that say nothing of the
order in which the ways are tried: which texts a pattern takes, in front of which others,
and which groups it remembers.

* `Pattern.Takes` — the rules, and for each pattern what they come to.
* `Pattern.exists_takes_of_run`, `Pattern.isSome_run` — what is found obeys the rules, and
  where the rules allow something to be found, something is.
* `Pattern.match?_eq_some`, `Pattern.isSome_match?` — the same of whole texts.
-/

namespace BuildDigest.Text.Pattern

/-- A pattern takes a text in front of another one and remembers groups, the last one first. -/
inductive Takes : Pattern → List Char → List Char → List Group → Prop
  | empty {rest : List Char} : Takes .empty [] rest []
  | finish {rest : List Char} (hEnd : rest = [] ∨ rest = ['\n']) : Takes .finish [] rest []
  | one {accepts : Char → Bool} {c : Char} {rest : List Char} (hAccepts : accepts c = true) :
      Takes (.one accepts) [c] rest []
  | most {accepts : Char → Bool} {taken rest : List Char} (hAll : ∀ c ∈ taken, accepts c = true) :
      Takes (.most accepts) taken rest []
  | fewest {accepts : Char → Bool} {taken rest : List Char}
      (hAll : ∀ c ∈ taken, accepts c = true) : Takes (.fewest accepts) taken rest []
  | both {p q : Pattern} {first second rest : List Char} {early late : List Group}
      (hFirst : Takes p first (second ++ rest) early) (hSecond : Takes q second rest late) :
      Takes (.both p q) (first ++ second) rest (late ++ early)
  | present {p : Pattern} {taken rest : List Char} {groups : List Group}
      (hTaken : Takes p taken rest groups) : Takes (.optional p) taken rest groups
  | absent {p : Pattern} {rest : List Char} : Takes (.optional p) [] rest []
  | group {name : String} {p : Pattern} {taken rest : List Char} {groups : List Group}
      (hTaken : Takes p taken rest groups) :
      Takes (.group name p) taken rest (⟨name, taken ++ rest, rest⟩ :: groups)

-- ---------------------------------------------------------------------------
-- What the rules come to
-- ---------------------------------------------------------------------------

section

variable {p q : Pattern} {accepts : Char → Bool} {taken rest : List Char} {groups : List Group}

/-- The end of a text may have one line feed in front of it. -/
theorem takes_finish_iff :
    finish.Takes taken rest groups ↔ taken = [] ∧ groups = [] ∧ (rest = [] ∨ rest = ['\n']) := by
  constructor
  · intro h
    cases h with
    | finish hEnd => exact ⟨rfl, rfl, hEnd⟩
  · rintro ⟨rfl, rfl, hEnd⟩
    exact .finish hEnd

theorem takes_one_iff :
    (one accepts).Takes taken rest groups ↔
      ∃ c, accepts c = true ∧ taken = [c] ∧ groups = [] := by
  constructor
  · intro h
    cases h with
    | one hAccepts => exact ⟨_, hAccepts, rfl, rfl⟩
  · rintro ⟨c, hAccepts, rfl, rfl⟩
    exact .one hAccepts

theorem takes_most_iff :
    (most accepts).Takes taken rest groups ↔
      (∀ c ∈ taken, accepts c = true) ∧ groups = [] := by
  constructor
  · intro h
    cases h with
    | most hAll => exact ⟨hAll, rfl⟩
  · rintro ⟨hAll, rfl⟩
    exact .most hAll

/-- Two patterns in a row share out what is taken; the groups of the second one come first. -/
theorem takes_both_iff :
    (both p q).Takes taken rest groups ↔
      ∃ first second early late, p.Takes first (second ++ rest) early ∧
        q.Takes second rest late ∧ taken = first ++ second ∧ groups = late ++ early := by
  constructor
  · intro h
    cases h with
    | both hFirst hSecond => exact ⟨_, _, _, _, hFirst, hSecond, rfl, rfl⟩
  · rintro ⟨first, second, early, late, hFirst, hSecond, rfl, rfl⟩
    exact .both hFirst hSecond

/-- An optional pattern takes what it can, or nothing. -/
theorem takes_optional_iff :
    (optional p).Takes taken rest groups ↔
      p.Takes taken rest groups ∨ (taken = [] ∧ groups = []) := by
  constructor
  · intro h
    cases h with
    | present hTaken => exact Or.inl hTaken
    | absent => exact Or.inr ⟨rfl, rfl⟩
  · rintro (hTaken | ⟨rfl, rfl⟩)
    · exact .present hTaken
    · exact .absent

/-- A group takes what its pattern takes and notes where that stands. -/
theorem takes_group_iff {name : String} :
    (group name p).Takes taken rest groups ↔
      ∃ inner, p.Takes taken rest inner ∧ groups = ⟨name, taken ++ rest, rest⟩ :: inner := by
  constructor
  · intro h
    cases h with
    | group hTaken => exact ⟨_, hTaken, rfl⟩
  · rintro ⟨inner, hTaken, rfl⟩
    exact .group hTaken

/-- A stretch that may not be empty. -/
theorem takes_fewestOfOne_iff :
    (fewestOfOne accepts).Takes taken rest groups ↔
      taken ≠ [] ∧ (∀ c ∈ taken, accepts c = true) ∧ groups = [] := by
  constructor
  · intro h
    obtain ⟨_, later, _, _, hOne, hFewest, rfl, rfl⟩ := takes_both_iff.mp h
    obtain ⟨c, hHead, rfl, rfl⟩ := takes_one_iff.mp hOne
    cases hFewest with
    | fewest hAll => exact ⟨by simp, List.forall_mem_cons.mpr ⟨hHead, hAll⟩, rfl⟩
  · rintro ⟨hTaken, hAll, rfl⟩
    obtain ⟨c, later, rfl⟩ := List.exists_cons_of_ne_nil hTaken
    rw [List.forall_mem_cons] at hAll
    exact .both (.one hAll.1) (.fewest hAll.2)

theorem takes_all_nil_iff : (all []).Takes taken rest groups ↔ taken = [] ∧ groups = [] := by
  constructor
  · intro h
    cases h with
    | empty => exact ⟨rfl, rfl⟩
  · rintro ⟨rfl, rfl⟩
    exact .empty

/-- A row of patterns takes what its first one takes and then what the others take. -/
theorem takes_all_cons_iff {ps : List Pattern} :
    (all (p :: ps)).Takes taken rest groups ↔
      ∃ first second early late, p.Takes first (second ++ rest) early ∧
        (all ps).Takes second rest late ∧ taken = first ++ second ∧ groups = late ++ early :=
  takes_both_iff

end

/-- The text of a group is the text it was remembered for. -/
theorem Group.text_append (name : String) (taken rest : List Char) :
    (⟨name, taken ++ rest, rest⟩ : Group).text = String.ofList taken := by
  simp [Group.text]

-- ---------------------------------------------------------------------------
-- Stretches
-- ---------------------------------------------------------------------------

section

variable {α : Type} {accepts : Char → Bool} {next : List Char → Option α} {found : α}

/-- The longest run that lets the rest go on is one of the runs of accepted characters. -/
theorem exists_of_tryMost {cs : List Char} (h : tryMost accepts next cs = some found) :
    ∃ taken rest, cs = taken ++ rest ∧ (∀ c ∈ taken, accepts c = true) ∧
      next rest = some found := by
  induction cs with
  | nil => exact ⟨[], [], rfl, by simp, h⟩
  | cons c rest ih =>
    rw [tryMost] at h
    split at h
    · rename_i hAccepts
      cases hRest : tryMost accepts next rest with
      | none =>
        rw [hRest] at h
        exact ⟨[], c :: rest, rfl, by simp, h⟩
      | some found' =>
        rw [hRest] at h
        obtain ⟨taken, later, hEq, hAll, hNext⟩ := ih (by rw [hRest]; exact h)
        exact ⟨c :: taken, later, by rw [hEq, List.cons_append],
          List.forall_mem_cons.mpr ⟨hAccepts, hAll⟩, hNext⟩
    · exact ⟨[], c :: rest, rfl, by simp, h⟩

/-- If some run of accepted characters lets the rest go on, one is found, be it a longer one. -/
theorem isSome_tryMost {taken rest : List Char} (hAll : ∀ c ∈ taken, accepts c = true)
    (hNext : (next rest).isSome = true) : (tryMost accepts next (taken ++ rest)).isSome = true := by
  induction taken with
  | nil =>
    cases rest with
    | nil => exact hNext
    | cons c rest =>
      rw [List.nil_append, tryMost]
      split
      · split
        · rfl
        · exact hNext
      · exact hNext
  | cons c taken ih =>
    rw [List.forall_mem_cons] at hAll
    rw [List.cons_append, tryMost, if_pos hAll.1]
    obtain ⟨found, hFound⟩ := Option.isSome_iff_exists.mp (ih hAll.2)
    rw [hFound]
    rfl

/-- The shortest run that lets the rest go on is one of the runs of accepted characters. -/
theorem exists_of_tryFewest {cs : List Char} (h : tryFewest accepts next cs = some found) :
    ∃ taken rest, cs = taken ++ rest ∧ (∀ c ∈ taken, accepts c = true) ∧
      next rest = some found := by
  induction cs with
  | nil => exact ⟨[], [], rfl, by simp, h⟩
  | cons c rest ih =>
    rw [tryFewest] at h
    cases hHere : next (c :: rest) with
    | some found' =>
      rw [hHere] at h
      exact ⟨[], c :: rest, rfl, by simp, by rw [hHere]; exact h⟩
    | none =>
      rw [hHere] at h
      simp only at h
      split at h
      · rename_i hAccepts
        obtain ⟨taken, later, hEq, hAll, hNext⟩ := ih h
        exact ⟨c :: taken, later, by rw [hEq, List.cons_append],
          List.forall_mem_cons.mpr ⟨hAccepts, hAll⟩, hNext⟩
      · cases h

/-- If some run of accepted characters lets the rest go on, one is found, be it a shorter one. -/
theorem isSome_tryFewest {taken rest : List Char} (hAll : ∀ c ∈ taken, accepts c = true)
    (hNext : (next rest).isSome = true) :
    (tryFewest accepts next (taken ++ rest)).isSome = true := by
  induction taken with
  | nil =>
    cases rest with
    | nil => exact hNext
    | cons c rest =>
      obtain ⟨found, hFound⟩ := Option.isSome_iff_exists.mp hNext
      rw [List.nil_append, tryFewest, hFound]
      rfl
  | cons c taken ih =>
    rw [List.forall_mem_cons] at hAll
    rw [List.cons_append, tryFewest]
    split
    · rfl
    · rw [if_pos hAll.1]
      exact ih hAll.2

-- ---------------------------------------------------------------------------
-- Patterns
-- ---------------------------------------------------------------------------

/-- What is found obeys the rules. -/
theorem exists_takes_of_run {p : Pattern} {next : Place → Option α} {cs : List Char}
    {before : List Group} (h : p.run next ⟨cs, before⟩ = some found) :
    ∃ taken rest groups, cs = taken ++ rest ∧ p.Takes taken rest groups ∧
      next ⟨rest, groups ++ before⟩ = some found := by
  induction p generalizing next cs before with
  | empty => exact ⟨[], cs, [], rfl, .empty, h⟩
  | finish =>
    rw [run] at h
    split at h
    · rename_i hEnd
      exact ⟨[], cs, [], rfl, .finish hEnd, h⟩
    · cases h
  | one accepts =>
    cases cs with
    | nil => cases h
    | cons c rest =>
      simp only [run] at h
      split at h
      · rename_i hAccepts
        exact ⟨[c], rest, [], rfl, .one hAccepts, h⟩
      · cases h
  | most accepts =>
    obtain ⟨taken, rest, hEq, hAll, hNext⟩ := exists_of_tryMost h
    exact ⟨taken, rest, [], hEq, .most hAll, hNext⟩
  | fewest accepts =>
    obtain ⟨taken, rest, hEq, hAll, hNext⟩ := exists_of_tryFewest h
    exact ⟨taken, rest, [], hEq, .fewest hAll, hNext⟩
  | both p q ihp ihq =>
    obtain ⟨first, middle, early, rfl, hFirst, hMiddle⟩ := ihp h
    obtain ⟨second, rest, late, rfl, hSecond, hNext⟩ := ihq hMiddle
    refine ⟨first ++ second, rest, late ++ early, by simp, .both hFirst hSecond, ?_⟩
    rw [List.append_assoc]
    exact hNext
  | optional p ih =>
    simp only [run] at h
    cases hThere : p.run next ⟨cs, before⟩ with
    | some found' =>
      rw [hThere] at h
      obtain rfl := Option.some.inj h
      obtain ⟨taken, rest, groups, hEq, hTaken, hNext⟩ := ih hThere
      exact ⟨taken, rest, groups, hEq, .present hTaken, hNext⟩
    | none =>
      rw [hThere] at h
      exact ⟨[], cs, [], rfl, .absent, h⟩
  | group name p ih =>
    obtain ⟨taken, rest, groups, rfl, hTaken, hNext⟩ := ih h
    exact ⟨taken, rest, _, rfl, .group hTaken, hNext⟩

/-- Where the rules allow something to be found, something is. -/
theorem isSome_run {p : Pattern} {next : Place → Option α} {taken rest : List Char}
    {groups before : List Group} (h : p.Takes taken rest groups)
    (hNext : (next ⟨rest, groups ++ before⟩).isSome = true) :
    (p.run next ⟨taken ++ rest, before⟩).isSome = true := by
  induction h generalizing next before with
  | empty => exact hNext
  | finish hEnd =>
    simp only [run, List.nil_append, if_pos hEnd]
    exact hNext
  | one hAccepts =>
    simp only [run, List.cons_append, List.nil_append, if_pos hAccepts]
    exact hNext
  | most hAll => exact isSome_tryMost hAll hNext
  | fewest hAll => exact isSome_tryFewest hAll hNext
  | both _ _ ihFirst ihSecond =>
    rw [List.append_assoc] at hNext ⊢
    exact ihFirst (ihSecond hNext)
  | present _ ih =>
    obtain ⟨found, hFound⟩ := Option.isSome_iff_exists.mp (ih hNext)
    simp only [run, hFound]
    rfl
  | absent =>
    simp only [run]
    split
    · rfl
    · exact hNext
  | group _ ih => exact ih hNext

end

-- ---------------------------------------------------------------------------
-- Texts
-- ---------------------------------------------------------------------------

/-- A match is one of the ways in which the pattern takes the start of the text. -/
theorem match?_eq_some {p : Pattern} {text : String} {there : Place}
    (h : p.match? text = some there) :
    ∃ taken, text.toList = taken ++ there.rest ∧ p.Takes taken there.rest there.groups := by
  obtain ⟨taken, rest, groups, hEq, hTaken, hNext⟩ := exists_takes_of_run h
  rw [List.append_nil] at hNext
  obtain rfl := Option.some.inj hNext
  exact ⟨taken, hEq, hTaken⟩

/-- Where a pattern takes the start of a text in some way, there is a match. -/
theorem isSome_match? {p : Pattern} {text : String} {taken rest : List Char} {groups : List Group}
    (hText : text.toList = taken ++ rest) (h : p.Takes taken rest groups) :
    (p.match? text).isSome = true := by
  rw [match?, hText]
  exact isSome_run h rfl

end BuildDigest.Text.Pattern
