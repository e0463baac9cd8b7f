import BuildDigest.Json.Reader
import Mathlib.Data.List.Infix
import Mathlib.Data.List.TakeWhile

/-!
# The limits of the JSON reader

A text may fail to be read for two reasons that have nothing to do with its grammar: a
whole number with more digits than are read, and lists and objects that stand inside each
other more deeply than they are read. Both show in the text: the number is a run of digits
in it, and every list and object that is open has its bracket in it.

Main definitions.
* `Json.withinLimits` — a text is not at fault for a limit.
* `Json.Exceeds` — what a limit that is passed shows by.

Main statements.
* `exists_run_of_longWhole` — a number that is too long is a run of digits of the text.
* `lt_openings_of_tooDeep` — a text that is nested too deeply has that many brackets.
* `exceeds_of_not_withinLimits` — so a limit that is passed shows in the text.
* `withinLimits_of_le` — a short text with few brackets passes none.
-/

namespace BuildDigest.Json

/-- Whether a fault is that a limit is passed. -/
def Fault.isLimit : Fault → Bool
  | .longWhole _ | .tooDeep _ => true
  | _ => false

/-- Whether reading a text passes no limit. -/
def withinLimits (depth : Nat) (cs : List Char) : Bool :=
  match readChars depth cs with
  | .error fault => !fault.isLimit
  | .ok _ => true

/-- A character that opens a list or an object. -/
def isOpening (c : Char) : Bool :=
  c == '[' || c == '\x7b'

/-- What shows in a text that passes a limit: a run of more digits than are read, or more brackets
than may be open. -/
def Exceeds (depth : Nat) (cs : List Char) : Prop :=
  (∃ run, run <:+: cs ∧ (∀ c ∈ run, isDigit c = true) ∧ Whole.digitLimit < run.length) ∨
    depth < cs.countP isOpening

/-- What the limits say of reading some characters within a depth. -/
structure Limited {α : Type} (depth : Nat) (cs : List Char)
    (result : Except Fault (α × List Char)) : Prop where
  rest : ∀ a rest, result = .ok (a, rest) → rest <:+ cs
  longWhole : ∀ digits, result = .error (.longWhole digits) →
    ∃ run, run <:+: cs ∧ (∀ c ∈ run, isDigit c = true) ∧ run.length = digits ∧
      Whole.digitLimit < digits
  tooDeep : ∀ isObject, result = .error (.tooDeep isObject) → depth < cs.countP isOpening

namespace Limited

variable {α β : Type} {depth : Nat} {cs rest : List Char} {result : Except Fault (α × List Char)}

theorem ok {a : α} (h : rest <:+ cs) : Limited depth cs (.ok (a, rest)) where
  rest := by
    rintro _ _ ⟨⟩
    exact h
  longWhole := nofun
  tooDeep := nofun

/-- A fault of the grammar. -/
theorem error {fault : Fault} (h : fault.isLimit = false) :
    Limited depth cs (.error fault : Except Fault (α × List Char)) where
  rest := nofun
  longWhole := by
    rintro _ ⟨⟩
    cases h
  tooDeep := by
    rintro _ ⟨⟩
    cases h

/-- What holds of the end of a text holds of the text: it has the same runs, and no fewer
brackets. -/
theorem mono (h : Limited depth rest result) (hRest : rest <:+ cs) : Limited depth cs result where
  rest := by
    intro a more hOk
    exact (h.rest a more hOk).trans hRest
  longWhole := by
    intro digits hFault
    obtain ⟨run, hRun, hDigits⟩ := h.longWhole digits hFault
    exact ⟨run, hRun.trans hRest.isInfix, hDigits⟩
  tooDeep := by
    intro isObject hFault
    have := h.tooDeep isObject hFault
    have := hRest.sublist.countP_le (p := isOpening)
    omega

/-- A fault of a part that a text ends in. -/
theorem fault {fault : Fault} (h : Limited depth cs result) (hFault : result = .error fault) :
    Limited depth cs (.error fault : Except Fault (β × List Char)) where
  rest := nofun
  longWhole := by
    rintro digits ⟨⟩
    exact h.longWhole digits hFault
  tooDeep := by
    rintro isObject ⟨⟩
    exact h.tooDeep isObject hFault

/-- One bracket more is open inside than outside. -/
theorem opened {c : Char} (hOpening : isOpening c = true) (h : Limited depth cs result) :
    Limited (depth + 1) (c :: cs) result where
  rest := by
    intro a rest hOk
    exact (h.rest a rest hOk).trans (List.suffix_cons c cs)
  longWhole := by
    intro digits hFault
    obtain ⟨run, hRun, hDigits⟩ := h.longWhole digits hFault
    exact ⟨run, hRun.trans (List.suffix_cons c cs).isInfix, hDigits⟩
  tooDeep := by
    intro isObject hFault
    have := h.tooDeep isObject hFault
    rw [List.countP_cons_of_pos hOpening]
    omega

/-- No bracket may be opened any more. -/
theorem closed {c : Char} (hOpening : isOpening c = true) (isObject : Bool) :
    Limited 0 (c :: cs) (.error (.tooDeep isObject) : Except Fault (α × List Char)) where
  rest := nofun
  longWhole := nofun
  tooDeep := by
    rintro _ -
    rw [List.countP_cons_of_pos hOpening]
    omega

end Limited

theorem suffix_skip (cs : List Char) : skip cs <:+ cs :=
  List.dropWhile_suffix isBlank

-- ---------------------------------------------------------------------------
-- Texts
-- ---------------------------------------------------------------------------

/-- What follows four digits of a code is an end of the text before them. -/
theorem suffix_of_code? {cs rest : List Char} {n : Nat} (h : code? cs = some (n, rest)) :
    rest <:+ cs := by
  unfold code? at h
  split at h
  · next a b c d more =>
    simp only [bind, Option.bind_eq_some_iff] at h
    obtain ⟨_, -, _, -, _, -, _, -, hPair⟩ := h
    cases hPair
    exact ⟨[a, b, c, d], rfl⟩
  · cases h

/-- What a code escape leaves is the end of what it reads. -/
theorem suffix_of_codeEscape {cs rest : List Char} {c : Char}
    (h : codeEscape cs = .ok (c, rest)) : rest <:+ cs := by
  unfold codeEscape at h
  split at h
  · cases h
  · cases h
  · next n more hCode hMore =>
    have hFirst := suffix_of_code? hMore
    split at h
    · next after _ hHigh =>
      split at h
      · cases h
        exact hFirst
      · split at h
        · cases h
        · next hLow =>
          split at h
          · obtain ⟨-, rfl⟩ := Prod.mk.inj (Except.ok.inj h)
            refine (suffix_of_code? hLow).trans (List.IsSuffix.trans ?_ hFirst)
            exact ⟨['\\', 'u'], rfl⟩
          · cases h
            exact hFirst
    · cases h
      exact hFirst

/-- An escape by a code is at fault only for its grammar. -/
theorem isLimit_of_codeEscape {cs : List Char} {fault : Fault}
    (h : codeEscape cs = .error fault) : fault.isLimit = false := by
  unfold codeEscape at h
  split at h
  · cases h
    rfl
  · cases h
    rfl
  · split at h
    · split at h
      · cases h
      · split at h
        · cases h
          rfl
        · split at h <;> cases h
    · cases h

/-- Reading the rest of a text passes no limit, because texts hold neither numbers nor lists. -/
theorem limited_textFrom (depth fuel : Nat) (before cs : List Char) :
    Limited depth cs (textFrom fuel before cs) := by
  induction fuel generalizing before cs with
  | zero => exact .error rfl
  | succ fuel ih =>
    cases cs with
    | nil => exact .error rfl
    | cons c rest =>
      unfold textFrom
      split
      · exact .ok (List.suffix_cons c rest)
      · split
        · split
          · exact .error rfl
          · next digits =>
            split
            · next fault hEscape => exact .error (isLimit_of_codeEscape hEscape)
            · next _ more hEscape =>
              refine (ih _ more).mono ((suffix_of_codeEscape hEscape).trans ?_)
              exact ⟨[c, 'u'], rfl⟩
          · next e rest _ =>
            split
            · exact .error rfl
            · exact (ih _ rest).mono ⟨[c, e], rfl⟩
        · split
          · exact .error rfl
          · exact (ih _ rest).mono (List.suffix_cons c rest)

-- ---------------------------------------------------------------------------
-- Numbers and words
-- ---------------------------------------------------------------------------

theorem suffix_fraction (cs : List Char) : (fraction cs).2 <:+ cs := by
  unfold fraction
  split
  · next d rest =>
    split
    · refine (List.dropWhile_suffix isDigit).trans ?_
      exact ⟨['.', d], rfl⟩
    · exact List.suffix_rfl
  · exact List.suffix_rfl

/-- What follows an exponent is an end of the text before it, also where there is no exponent. -/
theorem suffix_exponent? (cs : List Char) : (exponent? cs).2 <:+ cs := by
  unfold exponent?
  split
  · next e rest =>
    split
    · split
      next negative digits hSign =>
        have hDigits : digits <:+ e :: rest := by
          split at hSign
          · cases hSign
            exact ⟨[e, '-'], rfl⟩
          · cases hSign
            exact ⟨[e, '+'], rfl⟩
          · cases hSign
            exact List.suffix_cons e rest
        dsimp only
        split
        · exact List.suffix_rfl
        · exact (List.dropWhile_suffix isDigit).trans hDigits
    · exact List.suffix_rfl
  · exact List.suffix_rfl

theorem suffix_of_word? {cs rest : List Char} {v : Value} (h : word? cs = some (v, rest)) :
    rest <:+ cs := by
  unfold word? at h
  split at h
  · next w _ _ =>
    obtain ⟨-, rfl⟩ := Prod.mk.inj (Option.some.inj h)
    exact List.drop_suffix w.length cs
  · cases h

/-- A number in front of a text; its integer digits are read. -/
theorem limited_numberWith (depth : Nat) (negative : Bool) {whole rest cs : List Char}
    (hDigits : ∀ c ∈ whole, isDigit c = true) (hText : whole ++ rest <:+ cs) :
    Limited depth cs (numberWith negative whole rest) := by
  have hRest : rest <:+ cs := (List.suffix_append whole rest).trans hText
  unfold numberWith
  split
  next decimals afterDecimals hFraction =>
    have hAfter : (exponent? afterDecimals).2 <:+ cs := by
      have hFirst := suffix_fraction rest
      rw [hFraction] at hFirst
      exact (suffix_exponent? afterDecimals).trans (hFirst.trans hRest)
    split
    · split
      · next hLong =>
        exact {
          rest := nofun
          longWhole := by
            rintro _ ⟨⟩
            exact ⟨whole, (List.prefix_append whole rest).isInfix.trans hText.isInfix, hDigits,
              rfl, hLong⟩
          tooDeep := nofun }
      · exact .ok hRest
    · next hExponent =>
      rw [hExponent] at hAfter
      exact .ok hAfter

/-- A number passes a limit only by its own digits. -/
theorem limited_readNumber (depth : Nat) (cs : List Char) : Limited depth cs (readNumber cs) := by
  unfold readNumber
  split
  next negative unsigned hSign =>
    have hUnsigned : unsigned <:+ cs := by
      split at hSign
      · cases hSign
        exact List.suffix_cons _ _
      · cases hSign
        exact List.suffix_rfl
    split
    · refine limited_numberWith depth negative ?_ hUnsigned
      simp [isDigit]
    · next d rest _ =>
      split
      · next hDigit =>
        refine limited_numberWith depth negative ?_ ?_
        · intro c hc
          rcases List.mem_cons.mp hc with rfl | hc
          · exact hDigit
          · exact List.mem_takeWhile_imp hc
        · rw [List.cons_append, List.takeWhile_append_dropWhile]
          exact hUnsigned
      · exact .error rfl
    · exact .error rfl

-- ---------------------------------------------------------------------------
-- Values
-- ---------------------------------------------------------------------------

section

variable {fuel : Nat}

/-- A value is within the limits if its parts are. Of the depth it takes one off for the bracket
that it starts with. -/
theorem limited_readValue_succ
    (hFields : ∀ depth cs, Limited depth cs (readFields fuel depth cs))
    (hElements : ∀ depth cs, Limited depth cs (readElements fuel depth cs)) (depth : Nat)
    (cs : List Char) : Limited depth cs (readValue (fuel + 1) depth cs) := by
  unfold readValue
  split
  · next rest =>
    have hText := (limited_textFrom depth fuel [] rest).mono (List.suffix_cons '"' rest)
    split
    · next hFault => exact hText.fault hFault
    · next s more hRead => exact .ok (hText.rest s more hRead)
  · next rest =>
    split
    · exact .closed rfl true
    · next depth =>
      refine Limited.opened rfl ?_
      split
      · next more hClosed =>
        refine .ok (List.IsSuffix.trans ?_ (suffix_skip rest))
        rw [hClosed]
        exact List.suffix_cons _ more
      · have hInner := (hFields depth (skip rest)).mono (suffix_skip rest)
        split
        · next hFault => exact hInner.fault hFault
        · next fields more hRead => exact .ok (hInner.rest fields more hRead)
  · next rest =>
    split
    · exact .closed rfl false
    · next depth =>
      refine Limited.opened rfl ?_
      split
      · next more hClosed =>
        refine .ok (List.IsSuffix.trans ?_ (suffix_skip rest))
        rw [hClosed]
        exact List.suffix_cons _ more
      · have hInner := (hElements depth (skip rest)).mono (suffix_skip rest)
        split
        · next hFault => exact hInner.fault hFault
        · next elements more hRead => exact .ok (hInner.rest elements more hRead)
  · split
    · next hWord => exact .ok (suffix_of_word? hWord)
    · exact limited_readNumber depth cs

/-- The fields of an object stay within the limits if their values do and the fields behind them. -/
theorem limited_readFields_succ
    (hValue : ∀ depth cs, Limited depth cs (readValue fuel depth cs))
    (hFields : ∀ depth cs, Limited depth cs (readFields fuel depth cs)) (depth : Nat)
    (cs : List Char) : Limited depth cs (readFields (fuel + 1) depth cs) := by
  unfold readFields
  split
  · next rest =>
    have hName := (limited_textFrom depth fuel [] rest).mono (List.suffix_cons '"' rest)
    split
    · next hFault => exact hName.fault hFault
    · next name afterName hRead =>
      have hAfterName := (suffix_skip afterName).trans (hName.rest name afterName hRead)
      split
      · next afterColon hColon =>
        rw [hColon] at hAfterName
        have hAfterColon := (suffix_skip afterColon).trans
          ((List.suffix_cons ':' afterColon).trans hAfterName)
        have hInner := (hValue depth (skip afterColon)).mono hAfterColon
        split
        · next hFault => exact hInner.fault hFault
        · next v afterValue hRead =>
          have hAfterValue := (suffix_skip afterValue).trans (hInner.rest v afterValue hRead)
          split
          · next more hEnd =>
            rw [hEnd] at hAfterValue
            exact .ok ((List.suffix_cons _ more).trans hAfterValue)
          · next more hComma =>
            rw [hComma] at hAfterValue
            have hMore := (suffix_skip more).trans ((List.suffix_cons ',' more).trans hAfterValue)
            have hOthers := (hFields depth (skip more)).mono hMore
            split
            · next hFault => exact hOthers.fault hFault
            · next fields last hRead => exact .ok (hOthers.rest fields last hRead)
          · exact .error rfl
      · exact .error rfl
  · exact .error rfl

/-- The elements of a list stay within the limits one by one. -/
theorem limited_readElements_succ
    (hValue : ∀ depth cs, Limited depth cs (readValue fuel depth cs))
    (hElements : ∀ depth cs, Limited depth cs (readElements fuel depth cs)) (depth : Nat)
    (cs : List Char) : Limited depth cs (readElements (fuel + 1) depth cs) := by
  unfold readElements
  have hInner := hValue depth cs
  split
  · next hFault => exact hInner.fault hFault
  · next v afterValue hRead =>
    have hAfterValue := (suffix_skip afterValue).trans (hInner.rest v afterValue hRead)
    split
    · next more hEnd =>
      rw [hEnd] at hAfterValue
      exact .ok ((List.suffix_cons _ more).trans hAfterValue)
    · next more hComma =>
      rw [hComma] at hAfterValue
      have hMore := (suffix_skip more).trans ((List.suffix_cons ',' more).trans hAfterValue)
      have hOthers := (hElements depth (skip more)).mono hMore
      split
      · next hFault => exact hOthers.fault hFault
      · next elements last hRead => exact .ok (hOthers.rest elements last hRead)
    · exact .error rfl

end

/-- By induction on the bound of the steps, values, fields and elements are read within the limits
all at once, because each of the three reads the others. -/
theorem limited_read (fuel : Nat) :
    (∀ depth cs, Limited depth cs (readValue fuel depth cs)) ∧
      (∀ depth cs, Limited depth cs (readFields fuel depth cs)) ∧
      ∀ depth cs, Limited depth cs (readElements fuel depth cs) := by
  induction fuel with
  | zero =>
    refine ⟨fun depth cs => ?_, fun depth cs => ?_, fun depth cs => ?_⟩
    · rw [readValue]
      exact .error rfl
    · rw [readFields]
      exact .error rfl
    · rw [readElements]
      exact .error rfl
  | succ fuel ih =>
    obtain ⟨hValue, hFields, hElements⟩ := ih
    exact ⟨limited_readValue_succ hFields hElements, limited_readFields_succ hValue hFields,
      limited_readElements_succ hValue hElements⟩

-- ---------------------------------------------------------------------------
-- Whole texts
-- ---------------------------------------------------------------------------

section

variable {depth : Nat} {cs : List Char}

/-- A whole text passes a limit where its value does. -/
theorem readValue_of_readChars_error {fault : Fault} (h : readChars depth cs = .error fault)
    (hLimit : fault.isLimit = true) :
    readValue (2 * cs.length + 2) depth (skip cs) = .error fault := by
  unfold readChars at h
  split at h
  · cases h
    cases hLimit
  · split at h
    · next hFault =>
      cases h
      exact hFault
    · split at h
      · cases h
      · cases h
        cases hLimit

/-- The blanks in front of a value count neither as digits nor as brackets. -/
theorem limited_skip (depth : Nat) (cs : List Char) :
    Limited depth cs (readValue (2 * cs.length + 2) depth (skip cs)) :=
  ((limited_read (2 * cs.length + 2)).1 depth (skip cs)).mono (suffix_skip cs)

/-- A whole number that is too long is a run of digits of the text. -/
theorem exists_run_of_longWhole {digits : Nat}
    (h : readChars depth cs = .error (.longWhole digits)) :
    ∃ run, run <:+: cs ∧ (∀ c ∈ run, isDigit c = true) ∧ run.length = digits ∧
      Whole.digitLimit < digits :=
  (limited_skip depth cs).longWhole digits (readValue_of_readChars_error h rfl)

/-- A text that is nested too deeply has more brackets than may be open. -/
theorem lt_openings_of_tooDeep {isObject : Bool}
    (h : readChars depth cs = .error (.tooDeep isObject)) :
    depth < cs.countP isOpening :=
  (limited_skip depth cs).tooDeep isObject (readValue_of_readChars_error h rfl)

/-- A limit is passed only where it shows in the text: by a run of more digits than are read, or by
more brackets than may be open. -/
theorem exceeds_of_not_withinLimits (h : withinLimits depth cs = false) : Exceeds depth cs := by
  unfold withinLimits at h
  split at h
  · next fault hFault =>
    cases fault with
    | longWhole digits =>
      obtain ⟨run, hRun, hDigits, rfl, hLong⟩ := exists_run_of_longWhole hFault
      exact .inl ⟨run, hRun, hDigits, hLong⟩
    | tooDeep isObject => exact .inr (lt_openings_of_tooDeep hFault)
    | expectingValue | expectingName | expectingColon | expectingComma | extraData
    | unterminatedText | controlCharacter | badEscape | badCodeEscape | byteOrderMark => cases h
  · cases h

/-- A text that is no longer than a whole number may be, with no more brackets than may be open, is
within the limits. -/
theorem withinLimits_of_le (hLength : cs.length ≤ Whole.digitLimit)
    (hOpenings : cs.countP isOpening ≤ depth) : withinLimits depth cs = true := by
  by_contra hPassed
  rcases exceeds_of_not_withinLimits (Bool.eq_false_iff.mpr hPassed) with
    ⟨run, hRun, -, hLong⟩ | hDeep
  · have := hRun.length_le
    omega
  · omega

end

end BuildDigest.Json
