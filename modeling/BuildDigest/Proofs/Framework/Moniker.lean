import BuildDigest.Framework.Moniker
import BuildDigest.Proofs.Text.Pattern
import BuildDigest.Proofs.Text.Sign
import Mathlib.Data.List.Forall2

/-!
# What monikers say

A moniker can be told without the pattern that reads it: an identifier up to a comma, the
word `Version` in any case with blanks around it, an equals sign, a version up to the next
comma or the end, and after that comma anything on one line. Every text of this form is
read, no other one is, and identifier and version are determined by the text. Blanks at
their ends belong to them here, while the pattern leaves some of them out; the short name
does not depend on that.

Main definitions.
* `IsPiece`, `IsVersionWord`, `IsTail` — the parts of a moniker.
* `Writes` — a text is a moniker of an identifier and a version.

Main results.
* `writes_of_takes`, `exists_takes_of_writes` — the pattern and the description agree.
* `Writes.unique` — a moniker has one identifier and one version.
* `shortNameOf_iff_writes` — the short name of a text.
-/

namespace BuildDigest.Framework

open Text (isBlank stripChars Pattern forall_bne_iff takeWhile_append_sign dropWhile_append_sign)
open Text.Pattern

/-- A text that may stand between two commas. -/
structure IsPiece (cs : List Char) : Prop where
  ne_nil : cs ≠ []
  comma : ',' ∉ cs

/-- The letters of the word `Version` in all their cases. -/
def versionLetters : List (List Char) :=
  [['v', 'V'], ['e', 'E'], ['r', 'R'], ['s', 'S', '\u017f'], ['i', 'I', '\u0130', '\u0131'],
    ['o', 'O'], ['n', 'N']]

/-- The word `Version` in any case. -/
def IsVersionWord (cs : List Char) : Prop :=
  List.Forall₂ (fun cases c => c ∈ cases) versionLetters cs

/-- What may follow the version of a moniker. -/
inductive IsTail : List Char → Prop
  | nothing : IsTail []
  | profile {text : List Char} (hLine : '\n' ∉ text) : IsTail (',' :: text)
  | line {text : List Char} (hLine : '\n' ∉ text) : IsTail (',' :: (text ++ ['\n']))

/-- A text is a moniker of an identifier and a version. -/
inductive Writes : List Char → List Char → List Char → Prop
  | intro {identifier before word after version tail : List Char}
      (hIdentifier : IsPiece identifier) (hBefore : ∀ c ∈ before, isBlank c = true)
      (hWord : IsVersionWord word) (hAfter : ∀ c ∈ after, isBlank c = true)
      (hVersion : IsPiece version) (hTail : IsTail tail) :
      Writes (identifier ++ ',' :: (before ++ (word ++ (after ++ '=' :: (version ++ tail)))))
        identifier version

-- ---------------------------------------------------------------------------
-- Signs
-- ---------------------------------------------------------------------------

section

variable {sign : Char} {cs rest : List Char}

theorem not_mem_of_blank (hSign : isBlank sign = false) (h : ∀ c ∈ cs, isBlank c = true) :
    sign ∉ cs := by
  intro hMem
  simp [h sign hMem] at hSign

theorem takes_sign_iff {groups : List Group} :
    (Pattern.one (· == sign)).Takes cs rest groups ↔ cs = [sign] ∧ groups = [] := by
  simp [takes_one_iff]

end

-- ---------------------------------------------------------------------------
-- The word
-- ---------------------------------------------------------------------------

/-- Whether two signs are one letter up to case is told by ASCII, except for the long s and for the
i with and without a dot. -/
theorem sameLetter_iff {letter upper : Char} (h : upper.toNat + 32 = letter.toNat) (c : Char) :
    sameLetter letter c = true ↔
      c = letter ∨ c = upper ∨ (letter = 's' ∧ c = '\u017f') ∨
        (letter = 'i' ∧ (c = '\u0130' ∨ c = '\u0131')) := by
  have hUpper : c.toNat + 32 = letter.toNat ↔ c = upper := by
    rw [← h, Nat.add_right_cancel_iff, Char.toNat_inj]
  simp only [sameLetter, Bool.or_eq_true, Bool.and_eq_true, beq_iff_eq, hUpper, or_assoc]

/-- A letter with no other forms than its two cases. -/
theorem sameLetter_iff_mem {letter upper : Char} (h : upper.toNat + 32 = letter.toNat)
    (hS : letter ≠ 's') (hI : letter ≠ 'i') (c : Char) :
    sameLetter letter c = true ↔ c ∈ [letter, upper] := by
  simp [sameLetter_iff h, hS, hI]

/-- The table has the letters of the word, each with the characters that count as it. -/
theorem forall₂_versionLetters :
    List.Forall₂ (fun letter cases => ∀ c, sameLetter letter c = true ↔ c ∈ cases)
      versionWord versionLetters := by
  have hS (c : Char) : sameLetter 's' c = true ↔ c ∈ ['s', 'S', '\u017f'] := by
    simp [sameLetter_iff (show 'S'.toNat + 32 = 's'.toNat from rfl)]
  have hI (c : Char) : sameLetter 'i' c = true ↔ c ∈ ['i', 'I', '\u0130', '\u0131'] := by
    simp [sameLetter_iff (show 'I'.toNat + 32 = 'i'.toNat from rfl)]
  have plain {letter upper : Char} := @sameLetter_iff_mem letter upper
  rw [show versionWord = ['v', 'e', 'r', 's', 'i', 'o', 'n'] from rfl]
  exact .cons (plain rfl (by decide) (by decide)) <| .cons (plain rfl (by decide) (by decide)) <|
    .cons (plain rfl (by decide) (by decide)) <| .cons hS <| .cons hI <|
    .cons (plain rfl (by decide) (by decide)) <| .cons (plain rfl (by decide) (by decide)) .nil

/-- The word is written letter by letter, each in any of its cases. -/
theorem isVersionWord_iff {cs : List Char} :
    IsVersionWord cs ↔
      List.Forall₂ (fun letter c => sameLetter letter c = true) versionWord cs := by
  rw [IsVersionWord]
  have h := forall₂_versionLetters
  generalize versionWord = letters at h ⊢
  generalize versionLetters = table at h ⊢
  induction h generalizing cs with
  | nil => simp
  | cons hLetter _ ih => simp only [List.forall₂_cons_left_iff, hLetter, ih]

/-- The pattern of a word takes its letters in any case and remembers nothing. -/
theorem takes_wordPattern_iff {letters taken rest : List Char} {groups : List Group} :
    (wordPattern letters).Takes taken rest groups ↔
      List.Forall₂ (fun letter c => sameLetter letter c = true) letters taken ∧ groups = [] := by
  induction letters generalizing taken groups with
  | nil => simp [wordPattern, takes_all_nil_iff]
  | cons letter letters ih =>
    rw [wordPattern, List.map_cons, takes_all_cons_iff, List.forall₂_cons_left_iff]
    constructor
    · rintro ⟨_, second, _, _, hFirst, hSecond, rfl, rfl⟩
      obtain ⟨c, hSame, rfl, rfl⟩ := takes_one_iff.mp hFirst
      obtain ⟨hAll, rfl⟩ := ih.mp hSecond
      exact ⟨⟨c, second, hSame, hAll, rfl⟩, rfl⟩
    · rintro ⟨⟨c, second, hSame, hAll, rfl⟩, rfl⟩
      exact ⟨[c], second, [], [], .one hSame, ih.mpr ⟨hAll, rfl⟩, rfl, rfl⟩

theorem takes_versionWord_iff {taken rest : List Char} {groups : List Group} :
    (wordPattern versionWord).Takes taken rest groups ↔ IsVersionWord taken ∧ groups = [] := by
  rw [takes_wordPattern_iff, isVersionWord_iff]

-- ---------------------------------------------------------------------------
-- The parts
-- ---------------------------------------------------------------------------

/-- A group remembers a text under a name, but for blanks at its ends. -/
structure Remembers (g : Group) (name : String) (cs : List Char) : Prop where
  name_eq : g.name = name
  strip_eq : stripChars g.text.toList = stripChars cs

section

variable {before cs after : List Char} (hBefore : ∀ c ∈ before, isBlank c = true)
  (hAfter : ∀ c ∈ after, isBlank c = true)

include hBefore hAfter

/-- A piece between blanks is a piece. -/
theorem IsPiece.blanks (h : IsPiece cs) : IsPiece (before ++ (cs ++ after)) where
  ne_nil := by simp [h.ne_nil]
  comma := by
    have hComma : isBlank ',' = false := by decide
    simp [not_mem_of_blank hComma hBefore, h.comma, not_mem_of_blank hComma hAfter]

/-- Blanks around a text are not remembered. -/
theorem Remembers.blanks {g : Group} {name : String} (h : Remembers g name cs) :
    Remembers g name (before ++ (cs ++ after)) where
  name_eq := h.name_eq
  strip_eq := by
    rw [h.strip_eq, Text.stripChars_blank_append hBefore, Text.stripChars_append_blank hAfter]

end

/-- A pattern of a piece takes pieces. -/
theorem exists_of_takes_piecePattern {name : String} {taken rest : List Char}
    {groups : List Group} (h : (piecePattern name).Takes taken rest groups) :
    IsPiece taken ∧ ∃ g, groups = [g] ∧ Remembers g name taken := by
  obtain ⟨before, _, _, _, hBlanks, hLater, rfl, rfl⟩ := takes_all_cons_iff.mp h
  obtain ⟨hBefore, rfl⟩ := takes_most_iff.mp hBlanks
  obtain ⟨inner, _, _, _, hGroup, hLast, rfl, rfl⟩ := takes_all_cons_iff.mp hLater
  obtain ⟨_, hInner, rfl⟩ := takes_group_iff.mp hGroup
  obtain ⟨hNe, hComma, rfl⟩ := takes_fewestOfOne_iff.mp hInner
  obtain ⟨after, _, _, _, hBlanks', hEnd, rfl, rfl⟩ := takes_all_cons_iff.mp hLast
  obtain ⟨hAfter, rfl⟩ := takes_most_iff.mp hBlanks'
  obtain ⟨rfl, rfl⟩ := takes_all_nil_iff.mp hEnd
  have hPiece : IsPiece inner := ⟨hNe, forall_bne_iff.mp hComma⟩
  have hRemembers : Remembers ⟨name, inner ++ (after ++ [] ++ rest), after ++ [] ++ rest⟩ name
      inner := by
    refine ⟨rfl, ?_⟩
    rw [Group.text_append, String.toList_ofList]
  rw [List.append_nil] at hRemembers ⊢
  exact ⟨hPiece.blanks hBefore hAfter, _, rfl, hRemembers.blanks hBefore hAfter⟩

/-- A pattern of a piece takes every piece. -/
theorem takes_piecePattern (name : String) {cs : List Char} (h : IsPiece cs) (rest : List Char) :
    (piecePattern name).Takes cs rest [⟨name, cs ++ rest, rest⟩] := by
  have hPiece : (Pattern.fewestOfOne (· != ',')).Takes cs rest [] :=
    takes_fewestOfOne_iff.mpr ⟨h.ne_nil, forall_bne_iff.mpr h.comma, rfl⟩
  -- the blanks around the piece may as well be part of it
  have hBlanks (rest : List Char) : blanksPattern.Takes [] rest [] := .most (by simp)
  have hWhole : (piecePattern name).Takes ([] ++ (cs ++ ([] ++ []))) rest _ :=
    .both (hBlanks _) (.both (.group hPiece) (.both (hBlanks _) .empty))
  simpa using hWhole

/-- What the pattern of the end takes, with what is left over, is an end of a moniker or a
line feed. -/
theorem isTail_of_takes {taken rest : List Char} {groups : List Group}
    (h : tailPattern.Takes taken rest groups) :
    groups = [] ∧ (IsTail (taken ++ rest) ∨ taken ++ rest = ['\n']) := by
  obtain ⟨profile, _, _, _, hProfile, hFinish, rfl, rfl⟩ := takes_both_iff.mp h
  obtain ⟨rfl, rfl, hEnd⟩ := takes_finish_iff.mp hFinish
  rw [List.append_nil, List.nil_append]
  rcases takes_optional_iff.mp hProfile with hThere | ⟨rfl, rfl⟩
  · obtain ⟨_, text, _, _, hComma, hText, rfl, rfl⟩ := takes_both_iff.mp hThere
    obtain ⟨rfl, rfl⟩ := takes_sign_iff.mp hComma
    obtain ⟨hAll, rfl⟩ := takes_most_iff.mp hText
    have hLine := forall_bne_iff.mp hAll
    refine ⟨rfl, Or.inl ?_⟩
    rcases hEnd with rfl | rfl
    · simpa using IsTail.profile hLine
    · simpa using IsTail.line hLine
  · refine ⟨rfl, ?_⟩
    rcases hEnd with rfl | rfl
    · exact Or.inl .nothing
    · exact Or.inr rfl

/-- The pattern of the end takes every end of a moniker, up to its last line feed. -/
theorem takes_of_isTail {tail : List Char} (h : IsTail tail) :
    ∃ taken rest, tail = taken ++ rest ∧ tailPattern.Takes taken rest [] := by
  have hThere {text rest : List Char} (hLine : '\n' ∉ text) (hEnd : rest = [] ∨ rest = ['\n']) :
      tailPattern.Takes (([','] ++ text) ++ []) rest [] := by
    have hText : (Pattern.most (· != '\n')).Takes text ([] ++ rest) [] :=
      .most (forall_bne_iff.mpr hLine)
    have hComma : commaPattern.Takes [','] (text ++ ([] ++ rest)) [] :=
      takes_sign_iff.mpr ⟨rfl, rfl⟩
    exact .both (.present (.both hComma hText)) (.finish hEnd)
  rcases h with _ | hLine | hLine
  · exact ⟨[] ++ [], [], rfl, .both .absent (.finish (Or.inl rfl))⟩
  · exact ⟨_, [], by simp, hThere hLine (Or.inl rfl)⟩
  · exact ⟨_, ['\n'], by simp, hThere hLine (Or.inr rfl)⟩

-- ---------------------------------------------------------------------------
-- Pattern and description
-- ---------------------------------------------------------------------------

/-- What the pattern takes is a moniker, and the groups remember its two pieces. A line feed
that is left over belongs to the version or to the line of the profile. -/
theorem writes_of_takes {taken rest : List Char} {groups : List Group}
    (h : monikerPattern.Takes taken rest groups) :
    ∃ identifier version g₁ g₂, Writes (taken ++ rest) identifier version ∧ groups = [g₂, g₁] ∧
      Remembers g₁ "identifier" identifier ∧ Remembers g₂ "version" version := by
  obtain ⟨identifier, _, _, _, hIdentifier, h₁, rfl, rfl⟩ := takes_all_cons_iff.mp h
  obtain ⟨hPiece₁, g₁, rfl, hRemembers₁⟩ := exists_of_takes_piecePattern hIdentifier
  obtain ⟨_, _, _, _, hComma, h₂, rfl, rfl⟩ := takes_all_cons_iff.mp h₁
  obtain ⟨rfl, rfl⟩ := takes_sign_iff.mp hComma
  obtain ⟨before, _, _, _, hBlanks₁, h₃, rfl, rfl⟩ := takes_all_cons_iff.mp h₂
  obtain ⟨hBefore, rfl⟩ := takes_most_iff.mp hBlanks₁
  obtain ⟨word, _, _, _, hLetters, h₄, rfl, rfl⟩ := takes_all_cons_iff.mp h₃
  obtain ⟨hWord, rfl⟩ := takes_versionWord_iff.mp hLetters
  obtain ⟨after, _, _, _, hBlanks₂, h₅, rfl, rfl⟩ := takes_all_cons_iff.mp h₄
  obtain ⟨hAfter, rfl⟩ := takes_most_iff.mp hBlanks₂
  obtain ⟨_, _, _, _, hEquals, h₆, rfl, rfl⟩ := takes_all_cons_iff.mp h₅
  obtain ⟨rfl, rfl⟩ := takes_sign_iff.mp hEquals
  obtain ⟨version, _, _, _, hVersion, h₇, rfl, rfl⟩ := takes_all_cons_iff.mp h₆
  obtain ⟨hPiece₂, g₂, rfl, hRemembers₂⟩ := exists_of_takes_piecePattern hVersion
  obtain ⟨tail, _, _, _, hTail, h₈, rfl, rfl⟩ := takes_all_cons_iff.mp h₇
  obtain ⟨rfl, rfl⟩ := takes_all_nil_iff.mp h₈
  obtain ⟨rfl, hTail | hTail⟩ := isTail_of_takes hTail
  · refine ⟨identifier, version, g₁, g₂, ?_, by simp, hRemembers₁, hRemembers₂⟩
    simpa using Writes.intro hPiece₁ hBefore hWord hAfter hPiece₂ hTail
  · have hFeed : ∀ c ∈ ['\n'], isBlank c = true := by
      simp only [List.mem_singleton, forall_eq]
      rfl
    have hNone : ∀ c ∈ ([] : List Char), isBlank c = true := by simp
    have hWrites := Writes.intro hPiece₁ hBefore hWord hAfter (hPiece₂.blanks hNone hFeed) .nothing
    refine ⟨identifier, _, g₁, g₂, ?_, by simp, hRemembers₁, hRemembers₂.blanks hNone hFeed⟩
    rw [List.nil_append] at hTail
    simpa [hTail] using hWrites

/-- The pattern takes every moniker, up to a line feed at its end. -/
theorem exists_takes_of_writes {moniker identifier version : List Char}
    (h : Writes moniker identifier version) :
    ∃ taken rest groups, moniker = taken ++ rest ∧ monikerPattern.Takes taken rest groups := by
  obtain ⟨hIdentifier, hBefore, hWord, hAfter, hVersion, hTail⟩ := h
  obtain ⟨tail, rest, rfl, hEnd⟩ := takes_of_isTail hTail
  have hComma (rest : List Char) : commaPattern.Takes [','] rest [] :=
    takes_sign_iff.mpr ⟨rfl, rfl⟩
  have hEquals (rest : List Char) : (Pattern.one (· == '=')).Takes ['='] rest [] :=
    takes_sign_iff.mpr ⟨rfl, rfl⟩
  refine ⟨_, rest, _, ?_, .both (takes_piecePattern _ hIdentifier _) <| .both (hComma _) <|
    .both (.most hBefore) <| .both (takes_versionWord_iff.mpr ⟨hWord, rfl⟩) <|
    .both (.most hAfter) <| .both (hEquals _) <| .both (takes_piecePattern _ hVersion _) <|
    .both hEnd .empty⟩
  simp

-- ---------------------------------------------------------------------------
-- One identifier and one version
-- ---------------------------------------------------------------------------

/-- What follows the version starts with a comma, if it is not empty. -/
theorem IsTail.head?_eq {tail : List Char} (h : IsTail tail) : ∀ c ∈ tail.head?, c = ',' := by
  rcases h with _ | _ | _ <;> simp

/-- The word has no other characters than its letters. -/
theorem IsVersionWord.mem_flatten {cs : List Char} (h : IsVersionWord cs) :
    ∀ c ∈ cs, c ∈ versionLetters.flatten := by
  rw [IsVersionWord] at h
  generalize versionLetters = table at h ⊢
  induction h with
  | nil => simp
  | cons hMem _ ih =>
    rw [List.forall_mem_cons]
    refine ⟨by simp [hMem], ?_⟩
    intro c hc
    simp [ih c hc]

/-- The identifier ends at the first comma, the version begins behind the first equals sign
after it and ends at the next comma. -/
theorem Writes.eq_cut {moniker identifier version : List Char}
    (h : Writes moniker identifier version) :
    identifier = moniker.takeWhile (· != ',') ∧
      version = (((moniker.dropWhile (· != ',')).dropWhile (· != '=')).drop 1).takeWhile
        (· != ',') := by
  obtain ⟨hIdentifier, hBefore, hWord, hAfter, hVersion, hTail⟩ := h
  rename_i before word after tail
  have hEquals : '=' ∉ ',' :: (before ++ (word ++ after)) := by
    have hBlank : isBlank '=' = false := by decide
    have hNone : '=' ∉ word := by
      intro hMem
      exact absurd (hWord.mem_flatten '=' hMem) (by decide)
    simp [not_mem_of_blank hBlank hBefore, hNone, not_mem_of_blank hBlank hAfter]
  constructor
  · rw [takeWhile_append_sign hIdentifier.comma (by simp)]
  · rw [dropWhile_append_sign hIdentifier.comma (by simp)]
    have hCut : (',' :: (before ++ (word ++ (after ++ '=' :: (version ++ tail))))).dropWhile
        (· != '=') = '=' :: (version ++ tail) := by
      have hHead : ∀ c ∈ ('=' :: (version ++ tail)).head?, c = '=' := by simp
      simpa using dropWhile_append_sign hEquals hHead
    rw [hCut, List.drop_one, List.tail_cons, takeWhile_append_sign hVersion.comma hTail.head?_eq]

/-- A moniker has one identifier and one version. -/
theorem Writes.unique {moniker identifier version identifier' version' : List Char}
    (h : Writes moniker identifier version) (h' : Writes moniker identifier' version') :
    identifier = identifier' ∧ version = version' := by
  rw [h.eq_cut.1, h.eq_cut.2, h'.eq_cut.1, h'.eq_cut.2]
  exact ⟨rfl, rfl⟩

-- ---------------------------------------------------------------------------
-- Short names
-- ---------------------------------------------------------------------------

/-- The short name does not depend on blanks around identifier and version. -/
theorem shortName_congr {identifier identifier' version version' : String}
    (hIdentifier : stripChars identifier.toList = stripChars identifier'.toList)
    (hVersion : stripChars version.toList = stripChars version'.toList) :
    shortName identifier version = shortName identifier' version' := by
  rw [shortName, shortName, word, word, bareVersion, bareVersion, Text.strip, Text.strip,
    hIdentifier, hVersion]

/-- The short name of a moniker is that of its identifier and its version. -/
theorem shortNameOf_of_writes {moniker identifier version : String}
    (h : Writes moniker.toList identifier.toList version.toList) :
    shortNameOf moniker = (shortName identifier version).map some := by
  obtain ⟨taken, rest, groups, hText, hTakes⟩ := exists_takes_of_writes h
  obtain ⟨there, hMatch⟩ := Option.isSome_iff_exists.mp (isSome_match? hText hTakes)
  obtain ⟨taken', hText', hTakes'⟩ := match?_eq_some hMatch
  obtain ⟨identifier', version', g₁, g₂, hWrites, hGroups, hFirst, hSecond⟩ :=
    writes_of_takes hTakes'
  rw [← hText'] at hWrites
  obtain ⟨rfl, rfl⟩ := hWrites.unique h
  have hIdentifier : there.textOf "identifier" = g₁.text := by
    simp [Place.textOf, hGroups, hFirst.name_eq, hSecond.name_eq]
  have hVersion : there.textOf "version" = g₂.text := by
    simp [Place.textOf, hGroups, hSecond.name_eq]
  rw [shortNameOf, hMatch]
  show (shortName (there.textOf "identifier") (there.textOf "version")).map some = _
  rw [hIdentifier, hVersion, shortName_congr hFirst.strip_eq hSecond.strip_eq]

/-- A text that is read has the form of a moniker. -/
theorem exists_writes_of_shortNameOf {moniker : String} (h : shortNameOf moniker ≠ .ok none) :
    ∃ identifier version : String,
      Writes moniker.toList identifier.toList version.toList := by
  rw [shortNameOf] at h
  cases hMatch : monikerPattern.match? moniker with
  | none =>
    rw [hMatch] at h
    exact absurd rfl h
  | some there =>
    obtain ⟨taken, hText, hTakes⟩ := match?_eq_some hMatch
    obtain ⟨identifier, version, _, _, hWrites, -⟩ := writes_of_takes hTakes
    refine ⟨String.ofList identifier, String.ofList version, ?_⟩
    rw [hText, String.toList_ofList, String.toList_ofList]
    exact hWrites

/-- An identifier and a version put together are a moniker of the two. -/
theorem writes_append {identifier version tail : String} (hIdentifier : IsPiece identifier.toList)
    (hVersion : IsPiece version.toList) (hTail : IsTail tail.toList) :
    Writes (identifier ++ ",Version=" ++ version ++ tail).toList identifier.toList
      version.toList := by
  have hWord : IsVersionWord ['V', 'e', 'r', 's', 'i', 'o', 'n'] := by
    simp [IsVersionWord, versionLetters]
  have hNone : ∀ c ∈ ([] : List Char), isBlank c = true := by simp
  have hWrites := Writes.intro hIdentifier hNone hWord hNone hVersion hTail
  rw [String.toList_append, String.toList_append, String.toList_append,
    show ",Version=".toList = [',', 'V', 'e', 'r', 's', 'i', 'o', 'n', '='] from rfl]
  simpa using hWrites

/-- A text is read exactly if it is a moniker, and it has the short name of its identifier and
its version, or the fault that these give. So an identifier and a version without commas have
the same short name apart and put together, with a profile or without one. -/
theorem shortNameOf_iff_writes :
    (∀ moniker : String,
      (shortNameOf moniker ≠ .ok none ↔
        ∃ identifier version : String,
          Writes moniker.toList identifier.toList version.toList) ∧
      ∀ identifier version : String,
        Writes moniker.toList identifier.toList version.toList →
          shortNameOf moniker = (shortName identifier version).map some) ∧
    ∀ identifier version tail : String,
      IsPiece identifier.toList → IsPiece version.toList → IsTail tail.toList →
        shortNameOf (identifier ++ ",Version=" ++ version ++ tail) =
          (shortName identifier version).map some := by
  refine ⟨?_, ?_⟩
  · intro moniker
    refine ⟨⟨exists_writes_of_shortNameOf, ?_⟩, ?_⟩
    · rintro ⟨identifier, version, hWrites⟩
      rw [shortNameOf_of_writes hWrites]
      cases shortName identifier version <;> simp [Except.map]
    · intro identifier version hWrites
      exact shortNameOf_of_writes hWrites
  · intro identifier version tail hIdentifier hVersion hTail
    exact shortNameOf_of_writes (writes_append hIdentifier hVersion hTail)

-- a long s, blanks inside, and a line feed behind the profile
example : shortNameOf ".NETFramework , Ver\u017fion\t= v4.8,Profile=Client\n" =
    .ok (some "net48") := by rfl

end BuildDigest.Framework
