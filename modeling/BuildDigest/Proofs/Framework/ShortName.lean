import BuildDigest.Framework.ShortName
import BuildDigest.Proofs.Text.Sign

/-!
# Short names do not collide

A short name of a known framework is a word without digits and a body that starts with a
digit, so word and body are known from the name. The words are those of the identifiers, but
for the core framework, which takes the word of the classic one from some version on. The
two are still told apart, because the classic framework drops the points of its version and
the core framework keeps them. So the only versions that share a name are those of the
classic framework that differ in their points.

* `IsKnown`, `IsNumbered` — the identifiers and versions in question.
* `Written` — the word and the body of a name; `exists_written` — every name has them.
* `Written.unique` — they are known from the name.
* `shortName_eq_iff` — when two names are equal.
-/

namespace BuildDigest.Framework

/-- An identifier in lower case, without blanks around it. -/
def foldIdentifier (identifier : String) : String :=
  Text.lower (Text.strip identifier)

def IsKnown (identifier : String) : Prop :=
  foldIdentifier identifier ∈ knownWords.map (·.1)

instance (identifier : String) : Decidable (IsKnown identifier) :=
  inferInstanceAs (Decidable (_ ∈ _))

/-- A version without the letter v in front of it, in either case. -/
def unmarked (version : String) : List Char :=
  match version.toList with
  | 'v' :: rest => rest
  | 'V' :: rest => rest
  | cs => cs

/-- Two or more runs of digits with points in between, the first one short enough to be a number. -/
structure IsNumbered (cs : List Char) : Prop where
  runs : 2 ≤ (cs.splitOn '.').length
  digits : ∀ run ∈ cs.splitOn '.', run ≠ [] ∧ ∀ c ∈ run, c.isDigit = true
  major : ∀ run ∈ (cs.splitOn '.').head?, run.length ≤ Whole.digitLimit

/-- The form in which it is decided, by going through the runs and not through all characters. -/
theorem isNumbered_iff {cs : List Char} :
    IsNumbered cs ↔ 2 ≤ (cs.splitOn '.').length ∧
      ((cs.splitOn '.').all fun run => !run.isEmpty && run.all Char.isDigit) = true ∧
      ∀ run ∈ (cs.splitOn '.').head?, run.length ≤ Whole.digitLimit := by
  have hDigits : ((cs.splitOn '.').all fun run => !run.isEmpty && run.all Char.isDigit) = true ↔
      ∀ run ∈ cs.splitOn '.', run ≠ [] ∧ ∀ c ∈ run, c.isDigit = true := by
    simp
  rw [hDigits]
  exact ⟨fun h => ⟨h.runs, h.digits, h.major⟩, fun ⟨hRuns, hRun, hMajor⟩ => ⟨hRuns, hRun, hMajor⟩⟩

instance (cs : List Char) : Decidable (IsNumbered cs) :=
  decidable_of_iff _ isNumbered_iff.symm

/-- A version without its points. -/
def pointless (cs : List Char) : List Char :=
  cs.filter (· != '.')

/-- The word and the body of a name, from the identifier in lower case and the version. -/
inductive Written (folded : String) (version : List Char) : String → List Char → Prop
  | classic (hFolded : folded = ".netframework") : Written folded version "net" (pointless version)
  | renamed (hFolded : folded = ".netcoreapp") : Written folded version "net" version
  | plain {word : String} (hWord : (folded, word) ∈ knownWords)
      (hFolded : folded ≠ ".netframework") : Written folded version word version

variable {cs ds : List Char} {c : Char}

-- ---------------------------------------------------------------------------
-- Digits
-- ---------------------------------------------------------------------------

theorem isDigit_bounds (h : c.isDigit = true) : 0x30 ≤ c.toNat ∧ c.toNat ≤ 0x39 := by
  simp only [Char.isDigit, Bool.and_eq_true, decide_eq_true_eq] at h
  exact ⟨h.1, h.2⟩

/-- An ASCII digit is a decimal digit. -/
theorem isDecimal_of_isDigit (h : c.isDigit = true) : Text.isDecimal c = true := by
  have hBounds := isDigit_bounds h
  rw [Text.isDecimal, Text.decimalValue?]
  simp only [hBounds, and_self, if_true]
  rw [if_pos (by omega)]
  rfl

/-- A digit is not stripped. -/
theorem isBlank_of_isDigit (h : c.isDigit = true) : Text.isBlank c = false := by
  have hBounds := isDigit_bounds h
  simp only [Text.isBlank, Bool.or_eq_false_iff, Bool.and_eq_false_iff, decide_eq_false_iff_not,
    beq_eq_false_iff_ne]
  omega

-- ---------------------------------------------------------------------------
-- Versions
-- ---------------------------------------------------------------------------

namespace IsNumbered

/-- The first number of a version, and the point after it. -/
theorem exists_major (h : IsNumbered cs) :
    ∃ major rest, cs = major ++ '.' :: rest ∧ major ≠ [] ∧ (∀ c ∈ major, c.isDigit = true) ∧
      '.' ∉ major ∧ major.length ≤ Whole.digitLimit := by
  rcases Text.sign_cases '.' cs with hNone | ⟨major, rest, hNone, rfl⟩
  · have hRuns := h.runs
    rw [List.splitOn_eq_singleton hNone] at hRuns
    simp at hRuns
  · have hSplit : (major ++ '.' :: rest).splitOn '.' = major :: rest.splitOn '.' :=
      List.splitOn_append_cons_self_of_not_mem hNone rest
    have hDigits := h.digits major (by rw [hSplit]; exact List.mem_cons_self ..)
    exact ⟨major, rest, rfl, hDigits.1, hDigits.2, hNone, h.major major (by rw [hSplit]; rfl)⟩

theorem eq_point_or_isDigit (h : IsNumbered cs) (hc : c ∈ cs) : c = '.' ∨ c.isDigit = true := by
  rcases Text.mem_splitOn '.' hc with hPoint | ⟨run, hRun, hMem⟩
  · exact Or.inl hPoint
  · exact Or.inr ((h.digits run hRun).2 c hMem)

theorem head_isDigit (h : IsNumbered cs) : ∃ c rest, cs = c :: rest ∧ c.isDigit = true := by
  obtain ⟨major, rest, rfl, hSome, hDigits, -⟩ := h.exists_major
  cases major with
  | nil => exact absurd rfl hSome
  | cons c major => exact ⟨c, major ++ '.' :: rest, rfl, hDigits c (List.mem_cons_self ..)⟩

theorem point_mem (h : IsNumbered cs) : '.' ∈ cs := by
  obtain ⟨major, rest, rfl, -⟩ := h.exists_major
  exact List.mem_append_right major (List.mem_cons_self ..)

/-- The first number of a version can be read. -/
theorem exists_isRenamed (h : IsNumbered cs) : ∃ b, isRenamed cs = .ok b := by
  obtain ⟨major, rest, rfl, hSome, hDigits, hPoint, hLength⟩ := h.exists_major
  have hMajor : (major ++ '.' :: rest).takeWhile (· != '.') = major :=
    Text.takeWhile_append_sign hPoint fun c hc => by simpa using hc.symm
  have hDecimal : ∀ c ∈ major, Text.isDecimal c = true := fun c hc =>
    isDecimal_of_isDigit (hDigits c hc)
  have hAll : major.takeWhile Text.isDecimal = major := List.takeWhile_eq_self_iff.mpr hDecimal
  have hRead : Whole.read (String.ofList major) = .ok (Whole.valueFrom 0 major) := by
    simp only [Whole.read, String.toList_ofList, hAll]
    rw [if_neg (by omega), if_neg (by simpa using hSome)]
  simp only [isRenamed, hMajor, hRead]
  split
  · exact ⟨false, rfl⟩
  · exact ⟨_, rfl⟩

end IsNumbered

/-- A version is its letters v followed by what is left without them. -/
theorem exists_marks (version : String) :
    ∃ marks, version.toList = marks ++ unmarked version ∧ ∀ c ∈ marks, c = 'v' ∨ c = 'V' := by
  rw [unmarked]
  split
  · rename_i rest hEq
    exact ⟨['v'], hEq, by simp⟩
  · rename_i rest hEq
    exact ⟨['V'], hEq, by simp⟩
  · exact ⟨[], rfl, by simp⟩

/-- Nothing but the letter in front is dropped from a numbered version. -/
theorem bareVersion_eq_unmarked {version : String} (h : IsNumbered (unmarked version)) :
    bareVersion version = unmarked version := by
  obtain ⟨marks, hEq, hMarks⟩ := exists_marks version
  have hFull : ∀ c ∈ version.toList, Text.isBlank c = false := by
    intro c hc
    rw [hEq, List.mem_append] at hc
    rcases hc with hMark | hRest
    · rcases hMarks c hMark with rfl | rfl <;> rfl
    · rcases h.eq_point_or_isDigit hRest with rfl | hDigit
      · rfl
      · exact isBlank_of_isDigit hDigit
  rw [bareVersion, Text.stripChars_eq_self hFull, hEq,
    List.dropWhile_append_of_pos (by simpa using hMarks)]
  obtain ⟨c, rest, hHead, hc⟩ := h.head_isDigit
  rw [hHead, List.dropWhile_cons_of_neg]
  rw [Bool.or_eq_true, beq_iff_eq, beq_iff_eq]
  rintro (rfl | rfl) <;> revert hc <;> decide

-- ---------------------------------------------------------------------------
-- Words
-- ---------------------------------------------------------------------------

theorem lookup_knownWords : ∀ p ∈ knownWords, knownWords.lookup p.1 = some p.2 := by
  decide

theorem isDigit_knownWords : ∀ p ∈ knownWords, ∀ c ∈ p.2.toList, c.isDigit = false := by
  have hAll : ∀ p ∈ knownWords, (p.2.toList.any Char.isDigit) = false := by decide
  intro p hp c hc
  exact Bool.eq_false_iff.mpr (List.any_eq_false.mp (hAll p hp) c hc)

theorem net_iff_classic : ∀ p ∈ knownWords, p.2 = "net" ↔ p.1 = ".netframework" := by
  decide

theorem eq_core_of_netcoreapp : ∀ p ∈ knownWords, p.2 = "netcoreapp" → p.1 = ".netcoreapp" := by
  decide

theorem knownWords_injective : ∀ p ∈ knownWords, ∀ q ∈ knownWords, p.2 = q.2 → p.1 = q.1 := by
  decide

-- ---------------------------------------------------------------------------
-- Words and bodies
-- ---------------------------------------------------------------------------

section

variable {folded folded' word word' : String} {version version' body body' : List Char}

/-- The name of a word and a version that can be read. -/
theorem exists_written_named (hWord : (folded, word) ∈ knownWords) (h : IsNumbered version) :
    ∃ word' body, Written folded version word' body ∧
      named word version = .ok (word' ++ String.ofList body) := by
  rw [named]
  split
  · rename_i hNet
    subst hNet
    exact ⟨_, _, .classic ((net_iff_classic _ hWord).mp rfl), rfl⟩
  · rename_i hNet
    have hPlain : Written folded version word version :=
      .plain hWord fun hClassic => hNet ((net_iff_classic _ hWord).mpr hClassic)
    split
    · rename_i hCore
      subst hCore
      obtain ⟨b, hRenamed⟩ := h.exists_isRenamed
      rw [hRenamed]
      cases b with
      | true => exact ⟨_, _, .renamed (eq_core_of_netcoreapp _ hWord rfl), rfl⟩
      | false => exact ⟨_, _, hPlain, rfl⟩
    · exact ⟨_, _, hPlain, rfl⟩

/-- A known identifier and a version with numbers have a name of a word and a body. -/
theorem exists_written {identifier version : String} (hKnown : IsKnown identifier)
    (h : IsNumbered (unmarked version)) :
    ∃ word body, Written (foldIdentifier identifier) (unmarked version) word body ∧
      shortName identifier version = .ok (word ++ String.ofList body) := by
  obtain ⟨⟨folded, known⟩, hMem, hFolded⟩ := List.mem_map.mp hKnown
  have hWord : word identifier = known := by
    show (knownWords.lookup (foldIdentifier identifier)).getD (foldIdentifier identifier) = known
    rw [← hFolded, lookup_knownWords _ hMem, Option.getD_some]
  rw [shortName, hWord, bareVersion_eq_unmarked h, ← hFolded]
  exact exists_written_named hMem h

/-- A word holds no digit, so it can be told from the body behind it. -/
theorem Written.word_isDigit (h : Written folded version word body) :
    ∀ c ∈ word.toList, c.isDigit = false := by
  have hNet : (".netframework", "net") ∈ knownWords := by decide
  cases h with
  | classic => exact isDigit_knownWords _ hNet
  | renamed => exact isDigit_knownWords _ hNet
  | plain hWord => exact isDigit_knownWords _ hWord

/-- A body starts with a digit. -/
theorem Written.body_isDigit (h : Written folded version word body) (hv : IsNumbered version) :
    ∃ c rest, body = c :: rest ∧ c.isDigit = true := by
  obtain ⟨c, rest, rfl, hc⟩ := hv.head_isDigit
  cases h with
  | classic =>
    refine ⟨c, pointless rest, ?_, hc⟩
    rw [pointless, List.filter_cons_of_pos, pointless]
    rw [bne_iff_ne]
    rintro rfl
    revert hc
    decide
  | renamed => exact ⟨c, rest, rfl, hc⟩
  | plain => exact ⟨c, rest, rfl, hc⟩

/-- The word of a name ends where its first digit stands. -/
theorem Written.takeWhile_eq (h : Written folded version word body) (hv : IsNumbered version) :
    (word.toList ++ body).takeWhile (fun c => !c.isDigit) = word.toList := by
  have hNone : ∀ c ∈ word.toList, (!c.isDigit) = true := by simpa using h.word_isDigit
  obtain ⟨c, rest, rfl, hc⟩ := h.body_isDigit hv
  rw [List.takeWhile_append_of_pos hNone, List.takeWhile_cons_of_neg (by simp [hc]),
    List.append_nil]

/-- Word and body are known from the name. -/
theorem Written.unique (h : Written folded version word body)
    (h' : Written folded' version' word' body') (hv : IsNumbered version)
    (hv' : IsNumbered version') (hEq : word.toList ++ body = word'.toList ++ body') :
    word = word' ∧ body = body' := by
  have hWord : word.toList = word'.toList := by
    rw [← h.takeWhile_eq hv, hEq, h'.takeWhile_eq hv']
  rw [hWord] at hEq
  exact ⟨String.toList_injective hWord, List.append_cancel_left hEq⟩

/-- Two versions have the same name only if nothing tells them apart, except for the points of a
version of the classic framework. -/
theorem Written.agree (h : Written folded version word body)
    (h' : Written folded' version' word' body') (hv : IsNumbered version)
    (hv' : IsNumbered version') (hWord : word = word') (hBody : body = body') :
    folded = folded' ∧ version = version' ∨
      folded = ".netframework" ∧ folded' = ".netframework" ∧
        pointless version = pointless version' := by
  -- a body that keeps its points is not one that dropped them
  have hPoint : ∀ cs : List Char, '.' ∉ pointless cs := by simp [pointless]
  cases h with
  | classic hClassic =>
    cases h' with
    | classic hClassic' => exact Or.inr ⟨hClassic, hClassic', hBody⟩
    | renamed => exact absurd (hBody ▸ hv'.point_mem) (hPoint version)
    | plain hKnown hOther => exact absurd ((net_iff_classic _ hKnown).mp hWord.symm) hOther
  | renamed hCore =>
    cases h' with
    | classic => exact absurd (hBody ▸ hv.point_mem) (hPoint version')
    | renamed hCore' => exact Or.inl ⟨hCore.trans hCore'.symm, hBody⟩
    | plain hKnown hOther => exact absurd ((net_iff_classic _ hKnown).mp hWord.symm) hOther
  | plain hKnown hOther =>
    cases h' with
    | classic => exact absurd ((net_iff_classic _ hKnown).mp hWord) hOther
    | renamed => exact absurd ((net_iff_classic _ hKnown).mp hWord) hOther
    | plain hKnown' => exact Or.inl ⟨knownWords_injective _ hKnown _ hKnown' hWord, hBody⟩

/-- The classic framework is written by its word and its digits. -/
theorem Written.of_classic (h : Written ".netframework" version word body) :
    word = "net" ∧ body = pointless version := by
  cases h with
  | classic => exact ⟨rfl, rfl⟩
  | renamed hCore => exact absurd hCore (by decide)
  | plain _ hOther => exact absurd rfl hOther

end

-- ---------------------------------------------------------------------------
-- Names
-- ---------------------------------------------------------------------------

/-- Names depend on the identifier up to case and on the version without its letters. -/
theorem shortName_congr_folded {identifier identifier' version version' : String}
    (hIdentifier : foldIdentifier identifier = foldIdentifier identifier')
    (hVersion : bareVersion version = bareVersion version') :
    shortName identifier version = shortName identifier' version' := by
  rw [foldIdentifier, foldIdentifier] at hIdentifier
  rw [shortName, shortName, word, word, hIdentifier, hVersion]

/-- Known identifiers and numbered versions have a short name, and two of them have the same one
exactly if identifiers and versions agree, or they are versions of the classic framework that
agree but for their points. -/
theorem shortName_eq_iff {identifier identifier' version version' : String}
    (hKnown : IsKnown identifier) (hKnown' : IsKnown identifier')
    (hNumbered : IsNumbered (unmarked version)) (hNumbered' : IsNumbered (unmarked version')) :
    ∃ name name', shortName identifier version = .ok name ∧
      shortName identifier' version' = .ok name' ∧
      (name = name' ↔
        foldIdentifier identifier = foldIdentifier identifier' ∧
            unmarked version = unmarked version' ∨
          foldIdentifier identifier = ".netframework" ∧
            foldIdentifier identifier' = ".netframework" ∧
            pointless (unmarked version) = pointless (unmarked version')) := by
  obtain ⟨word, body, hWritten, hName⟩ := exists_written hKnown hNumbered
  obtain ⟨word', body', hWritten', hName'⟩ := exists_written hKnown' hNumbered'
  refine ⟨_, _, hName, hName', ?_, ?_⟩
  · intro hEq
    have hTexts : word.toList ++ body = word'.toList ++ body' := by
      simpa using congrArg String.toList hEq
    obtain ⟨hWord, hBody⟩ := hWritten.unique hWritten' hNumbered hNumbered' hTexts
    exact hWritten.agree hWritten' hNumbered hNumbered' hWord hBody
  · rintro (⟨hIdentifier, hVersion⟩ | ⟨hClassic, hClassic', hVersion⟩)
    · have hBare : bareVersion version = bareVersion version' := by
        rw [bareVersion_eq_unmarked hNumbered, bareVersion_eq_unmarked hNumbered', hVersion]
      have hSame := shortName_congr_folded hIdentifier hBare
      rw [hName, hName'] at hSame
      exact Except.ok.inj hSame
    · rw [hClassic] at hWritten
      rw [hClassic'] at hWritten'
      obtain ⟨rfl, rfl⟩ := hWritten.of_classic
      obtain ⟨rfl, rfl⟩ := hWritten'.of_classic
      rw [hVersion]

/-- Version 6 of the core framework and version 6 of the classic one have different names. -/
theorem shortName_six :
    ∃ name name', shortName " .NETCoreApp" "v6.0" = .ok name ∧
      shortName ".NETFramework" "V6.0" = .ok name' ∧ name ≠ name' := by
  obtain ⟨name, name', hName, hName', hIff⟩ :=
    shortName_eq_iff (by decide : IsKnown " .NETCoreApp") (by decide : IsKnown ".NETFramework")
      (by decide : IsNumbered (unmarked "v6.0")) (by decide : IsNumbered (unmarked "V6.0"))
  refine ⟨name, name', hName, hName', ?_⟩
  intro hEq
  rcases hIff.mp hEq with ⟨hSame, -⟩ | ⟨hClassic, -⟩
  · exact absurd hSame (by decide)
  · exact absurd hClassic (by decide)

end BuildDigest.Framework
