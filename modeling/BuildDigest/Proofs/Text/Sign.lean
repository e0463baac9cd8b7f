import Mathlib.Data.List.Basic
import Mathlib.Data.List.TakeWhile

/-!
# Texts cut at a sign

A sign ends a name in several notations of this library: a comma, a colon, an equals sign. A text
without the sign is what a reader finds in front of it.

* `sign_cases` — a text is free of a sign, or it is cut at the first one.
* `mem_splitOn` — where the characters of a text are when it is cut at every sign.
* `takeWhile_append_sign`, `dropWhile_append_sign` — what is found in front of a sign and from it on.
-/

namespace BuildDigest.Text

variable {sign : Char} {cs rest : List Char}

theorem forall_bne_iff : (∀ c ∈ cs, (c != sign) = true) ↔ sign ∉ cs := by
  simp only [bne_iff_ne]
  exact List.forall_mem_ne'

/-- A text is free of a sign, or it is cut at the first one. -/
theorem sign_cases (sign : Char) (cs : List Char) :
    sign ∉ cs ∨ ∃ before rest, sign ∉ before ∧ cs = before ++ sign :: rest := by
  by_cases h : sign ∈ cs
  · obtain ⟨before, rest, hEq, hBefore⟩ := List.eq_append_cons_of_mem h
    exact Or.inr ⟨before, rest, hBefore, hEq⟩
  · exact Or.inl h

/-- A text without a sign, in front of nothing or of that sign, is what comes before the sign. -/
theorem takeWhile_append_sign (h : sign ∉ cs) (hRest : ∀ c ∈ rest.head?, c = sign) :
    (cs ++ rest).takeWhile (· != sign) = cs := by
  rw [List.takeWhile_append_of_pos (forall_bne_iff.mpr h)]
  cases rest with
  | nil => simp
  | cons c rest => simp [hRest c rfl]

/-- What stands in front of the first sign is dropped when it holds none. -/
theorem dropWhile_append_sign (h : sign ∉ cs) (hRest : ∀ c ∈ rest.head?, c = sign) :
    (cs ++ rest).dropWhile (· != sign) = rest := by
  have hEq := List.takeWhile_append_dropWhile (p := (· != sign)) (l := cs ++ rest)
  rw [takeWhile_append_sign h hRest] at hEq
  exact List.append_cancel_left hEq

/-- A character of a text that is cut at a sign is the sign or stands in one of the pieces. -/
theorem mem_splitOn (sign : Char) {c : Char} {cs : List Char} (h : c ∈ cs) :
    c = sign ∨ ∃ run ∈ cs.splitOn sign, c ∈ run := by
  rcases sign_cases sign cs with hNone | ⟨before, rest, hNone, rfl⟩
  · exact Or.inr ⟨cs, by simp [List.splitOn_eq_singleton hNone], h⟩
  · rw [List.splitOn_append_cons_self_of_not_mem hNone rest]
    rw [List.mem_append, List.mem_cons] at h
    rcases h with hBefore | hSign | hRest
    · exact Or.inr ⟨before, List.mem_cons_self .., hBefore⟩
    · exact Or.inl hSign
    · rcases mem_splitOn sign hRest with hSign | ⟨run, hRun, hc⟩
      · exact Or.inl hSign
      · exact Or.inr ⟨run, List.mem_cons_of_mem before hRun, hc⟩
termination_by cs.length
decreasing_by grind

end BuildDigest.Text
