import BuildDigest.Proofs.Timestamp.Written
import Mathlib.Data.List.TakeWhile

/-!
# The letter Z after a timestamp

A letter Z or z at the end of a text is replaced by the offset `+00:00` before the text is
read. Behind a time of day that is an offset. Behind a date alone it is not: its sign is
taken for the separator between date and time of day, and `00:00` for the time, so that what
is read has no offset at all.

* `outline`, `dateForms` — the forms of a date, with zeros for its digits.
* `isDate_of_date?` — what is read as a date has one of the forms.
* `dateLength_append_zero` — the offset does not move the end of the date.
* `read_zulu` — what the letter makes of a text that has no offset.
-/

namespace BuildDigest.Timestamp

/-- A text with zeros for its digits. -/
def outline (cs : List Char) : List Char :=
  cs.map fun c => if isDigit c then '0' else c

/-- The outlines of calendar dates and week dates, extended and compact. -/
def dateForms : List (List Char) :=
  ["0000-00-00", "00000000", "0000-W00", "0000-W00-0", "0000W00", "0000W000"].map String.toList

/-- A text with the outline of a date and nothing behind it. -/
def IsDate (cs : List Char) : Prop :=
  outline cs ∈ dateForms

instance (cs : List Char) : Decidable (IsDate cs) :=
  inferInstanceAs (Decidable (_ ∈ _))

/-- The offset that a final Z or z is replaced by. -/
def zeroOffset : List Char :=
  ['+', '0', '0', ':', '0', '0']

/-- Whether a text ends in the letter that stands for the offset zero. -/
def EndsInZulu (cs : List Char) : Prop :=
  cs.getLast? = some 'Z' ∨ cs.getLast? = some 'z'

instance (cs : List Char) : Decidable (EndsInZulu cs) :=
  inferInstanceAs (Decidable (_ ∨ _))

variable {cs rest : List Char} {c : Char}

-- ---------------------------------------------------------------------------
-- Outlines
-- ---------------------------------------------------------------------------

@[simp] theorem outline_nil : outline [] = [] := rfl

@[simp] theorem outline_cons (c : Char) (cs : List Char) :
    outline (c :: cs) = (if isDigit c then '0' else c) :: outline cs := rfl

@[simp] theorem outline_append (cs ds : List Char) :
    outline (cs ++ ds) = outline cs ++ outline ds :=
  List.map_append

@[simp] theorem length_outline (cs : List Char) : (outline cs).length = cs.length :=
  List.length_map _

/-- The outline of digits is as many zeros. -/
theorem outline_eq_replicate (h : ∀ c ∈ cs, isDigit c = true) :
    outline cs = List.replicate cs.length '0' := by
  rw [List.eq_replicate_iff, length_outline]
  refine ⟨rfl, ?_⟩
  intro c hc
  obtain ⟨d, hd, rfl⟩ := List.mem_map.mp hc
  rw [if_pos (h d hd)]

/-- Digits that are read are as many zeros of the outline. -/
theorem outline_of_digits? {count n : Nat} (h : digits? count cs = some (n, rest)) :
    outline cs = List.replicate count '0' ++ outline rest := by
  simp only [digits?] at h
  split at h
  · rename_i hRun
    cases h
    have hDigits := outline_eq_replicate (List.all_eq_true.mp hRun.2)
    rw [hRun.1] at hDigits
    rw [← hDigits, ← outline_append, List.take_append_drop]
  · cases h

theorem getElem?_outline (cs : List Char) (i : Nat) :
    (outline cs)[i]? = cs[i]?.map fun c => if isDigit c then '0' else c :=
  List.getElem?_map

/-- A sign that is no digit stands in the outline where it stands in the text. -/
theorem getElem?_outline_eq_some {sign : Char} (hSign : isDigit sign = false) (i : Nat) :
    (outline cs)[i]? = some sign ↔ cs[i]? = some sign := by
  rw [getElem?_outline, Option.map_eq_some_iff]
  constructor
  · rintro ⟨c, hc, hEq⟩
    split at hEq
    · exact absurd hSign (hEq ▸ by decide)
    · rw [hc, hEq]
  · intro hc
    exact ⟨sign, hc, by simp [hSign]⟩

/-- A day that is read is as many zeros of the outline, behind a dash in the extended forms. -/
theorem outline_of_day? {count d : Nat} {extended : Bool} (h : day? count extended cs = some d) :
    outline cs = (if extended then ['-'] else []) ++ List.replicate count '0' := by
  simp only [day?] at h
  split at h
  · rename_i day hDay
    cases h
    split at hDay
    · rw [outline_cons, outline_of_digits? hDay, outline_nil, List.append_nil]
      rfl
    · cases hDay
    · rw [outline_of_digits? hDay, outline_nil, List.append_nil]
      rfl
  · cases h

/-- The year of a date, with a dash after it in the extended forms. -/
def yearForm (extended : Bool) : List Char :=
  List.replicate 4 '0' ++ if extended then ['-'] else []

/-- A year with a week and a day has the outline of a date. -/
theorem yearForm_week {extended : Bool} {week day : Nat} (hWeek : digits? 2 cs = some (week, rest))
    (hDay : weekDay? extended rest = some day) :
    yearForm extended ++ outline ('W' :: cs) ∈ dateForms := by
  rw [outline_cons, outline_of_digits? hWeek]
  unfold weekDay? at hDay
  split at hDay
  · rename_i hNone
    rw [hNone]
    cases extended <;> decide
  · rw [outline_of_day? hDay]
    cases extended <;> decide

/-- A year with a month and a day has the outline of a date. -/
theorem yearForm_month {extended : Bool} {month day : Nat}
    (hMonth : digits? 2 cs = some (month, rest)) (hDay : day? 2 extended rest = some day) :
    yearForm extended ++ outline cs ∈ dateForms := by
  rw [outline_of_digits? hMonth, outline_of_day? hDay]
  cases extended <;> decide

/-- A text starts with a dash or it does not; the two forms of a date differ by this. -/
theorem dash_cases (cs : List Char) :
    (∃ tail, cs = '-' :: tail) ∨ ∀ tail, cs = '-' :: tail → False := by
  rcases Classical.em (∃ tail, cs = '-' :: tail) with hDash | hNone
  · exact Or.inl hDash
  · exact Or.inr fun tail hEq => hNone ⟨tail, hEq⟩

/-- What is read as a date has the outline of one. -/
theorem isDate_of_date? {d : Calendar.Date} (h : date? cs = some d) : IsDate cs := by
  simp only [date?] at h
  split at h
  · cases h
  · rename_i year rest hYear
    rw [IsDate, outline_of_digits? hYear]
    -- with a dash behind the year and without one, what is left is read in the same way
    rcases dash_cases rest with ⟨tail, rfl⟩ | hNone
    all_goals
      simp only at h
      split at h
      · split at h
        · cases h
        · rename_i hWeek
          obtain ⟨day, hDay, -⟩ := Option.bind_eq_some_iff.mp h
          exact yearForm_week hWeek hDay
      · split at h
        · cases h
        · rename_i hMonth
          obtain ⟨day, hDay, -⟩ := Option.map_eq_some_iff.mp h
          exact yearForm_month hMonth hDay

-- ---------------------------------------------------------------------------
-- The end of a date
-- ---------------------------------------------------------------------------

/-- How many characters of a text are its date depends on the outline alone. -/
theorem dateLength_outline (cs : List Char) : dateLength (outline cs) = dateLength cs := by
  have hDash (i : Nat) : (outline cs)[i]? = some '-' ↔ cs[i]? = some '-' :=
    getElem?_outline_eq_some rfl i
  have hWeek (i : Nat) : (outline cs)[i]? = some 'W' ↔ cs[i]? = some 'W' :=
    getElem?_outline_eq_some rfl i
  have hDigit (c : Char) : isDigit (if isDigit c then '0' else c) = isDigit c := by
    split
    · rename_i hc
      rw [hc]
      rfl
    · rfl
  have hAny : ((outline cs)[10]?.any isDigit) = cs[10]?.any isDigit := by
    rw [getElem?_outline, Option.any_map]
    simp only [hDigit]
  have hRun : (((outline cs).drop 7).takeWhile isDigit).length =
      ((cs.drop 7).takeWhile isDigit).length := by
    rw [outline, ← List.map_drop, List.takeWhile_map, List.length_map]
    simp only [Function.comp_def, hDigit]
  simp only [dateLength, length_outline, hDash, hWeek, hAny, hRun]

theorem IsDate.dateLength_eq (h : IsDate cs) : dateLength cs = cs.length := by
  have hForms : ∀ form ∈ dateForms, dateLength form = form.length := by decide
  rw [← dateLength_outline, hForms _ h, length_outline]

/-- No date is shorter than seven characters. -/
theorem seven_le_dateLength (cs : List Char) : 7 ≤ dateLength cs := by
  unfold dateLength
  grind

/-- Whether a day stands behind a week is seen in the same way with the offset behind it. -/
theorem weekDay_append_zero (hLength : 8 ≤ cs.length) (hNine : cs.length = 9 → cs[8]? ≠ some '-') :
    ((cs ++ zeroOffset)[8]? = some '-' ∧ ((cs ++ zeroOffset)[10]?.any isDigit) = false) ↔
      cs[8]? = some '-' ∧ (cs[10]?.any isDigit) = false := by
  rw [List.getElem?_append, List.getElem?_append]
  by_cases hEight : cs.length = 8
  · simp [hEight, zeroOffset]
  · rw [if_pos (by omega)]
    by_cases hLong : 10 < cs.length
    · rw [if_pos hLong]
    · have hNone : cs[10]? = none := List.getElem?_eq_none (by omega)
      rw [if_neg hLong, hNone]
      by_cases hTen : cs.length = 10
      · simp [hTen, zeroOffset, isDigit]
      · simp [hNine (by omega)]

/-- The digits behind a week end where the offset starts. -/
theorem takeWhile_append_zero (hLength : 7 ≤ cs.length) :
    ((cs ++ zeroOffset).drop 7).takeWhile isDigit = (cs.drop 7).takeWhile isDigit := by
  rw [List.drop_append_of_le_length hLength, List.takeWhile_append]
  split
  · rename_i hAll
    have hNone : zeroOffset.takeWhile isDigit = [] := by decide
    rw [hNone, List.append_nil]
    exact ((List.takeWhile_prefix _).eq_of_length hAll).symm
  · rfl

/-- The offset does not move the end of the date in front of it. -/
theorem dateLength_append_zero (hWithin : dateLength cs ≤ cs.length)
    (hSeven : cs.length = 7 → cs[4]? = some 'W') :
    dateLength (cs ++ zeroOffset) = dateLength cs := by
  have hLength := (seven_le_dateLength cs).trans hWithin
  have hFull : (cs ++ zeroOffset).length ≠ 7 := by
    have hZero : zeroOffset.length = 6 := rfl
    rw [List.length_append]
    omega
  have hLeft (i : Nat) (hi : i < cs.length) : (cs ++ zeroOffset)[i]? = cs[i]? :=
    List.getElem?_append_left hi
  rw [dateLength, if_neg hFull, hLeft 4 (by omega), hLeft 5 (by omega),
    takeWhile_append_zero hLength]
  rw [dateLength] at hWithin ⊢
  by_cases hCount : cs.length = 7
  · have hNone : cs.drop 7 = [] := List.drop_of_length_le hCount.le
    rw [if_pos hCount, hSeven hCount, hNone]
    rfl
  · rw [if_neg hCount] at hWithin ⊢
    split
    · rename_i hDash
      rw [if_pos hDash] at hWithin
      split
      · rename_i hWeek
        rw [if_pos hWeek] at hWithin
        have hNine : cs.length = 9 → cs[8]? ≠ some '-' := by
          intro hNine hSign
          have hNone : cs[10]? = none := List.getElem?_eq_none (by omega)
          rw [if_pos ⟨hSign, by rw [hNone]; rfl⟩] at hWithin
          omega
        simp only [weekDay_append_zero (by omega) hNine]
      · rfl
    · rfl

/-- Where a date was found at the start of a text, it is found with the offset behind the text. -/
theorem dateLength_append_of_date? {d : Calendar.Date}
    (h : date? (cs.take (dateLength cs)) = some d) :
    dateLength cs ≤ cs.length ∧ dateLength (cs ++ zeroOffset) = dateLength cs := by
  have hDate := isDate_of_date? h
  have hWithin : dateLength cs ≤ cs.length := by
    by_contra hShort
    rw [List.take_of_length_le (by omega)] at hDate
    exact hShort hDate.dateLength_eq.le
  refine ⟨hWithin, dateLength_append_zero hWithin ?_⟩
  intro hSeven
  have hForms : ∀ form ∈ dateForms, form.length = 7 → form[4]? = some 'W' := by decide
  have hWhole : cs.take (dateLength cs) = cs := by
    rw [dateLength, if_pos hSeven, List.take_of_length_le hSeven.le]
  rw [hWhole] at hDate
  exact (getElem?_outline_eq_some rfl 4).mp (hForms _ hDate (by rw [length_outline, hSeven]))

-- ---------------------------------------------------------------------------
-- Times of day
-- ---------------------------------------------------------------------------

/-- The zero offset is read as such. -/
theorem offset?_zero (clock : Clock) : offset? clock zeroOffset = some (some 0) := by
  have hClock : clock? ['0', '0', ':', '0', '0'] = some {} := by decide
  rw [zeroOffset, offset?_cons (by decide) hClock rfl]
  rfl

/-- There is no offset only where nothing is left of the text. -/
theorem eq_nil_of_offset? {clock : Clock} (h : offset? clock cs = some none) : cs = [] := by
  unfold offset? at h
  split at h
  · rfl
  · split at h <;> cases h
  · split at h
    · split at h <;> cases h
    · cases h

/-- A time of day without an offset is read with the offset behind it. -/
theorem timeOfDay?_append_zero {clock : Clock} (h : timeOfDay? cs = some (clock, none)) :
    timeOfDay? (cs ++ zeroOffset) = some (clock, some 0) := by
  unfold timeOfDay? at h
  split at h
  · cases h
  · rename_i there hClock
    obtain ⟨offset, hOffset, hEq⟩ := Option.map_eq_some_iff.mp h
    cases hEq
    have hAll : ∀ c ∈ cs, (!startsOffset c) = true :=
      List.dropWhile_eq_nil_iff.mp (eq_nil_of_offset? hOffset)
    rw [List.takeWhile_eq_self_iff.mpr hAll] at hClock
    have hTake : zeroOffset.takeWhile (fun c => !startsOffset c) = [] := by decide
    have hDrop : zeroOffset.dropWhile (fun c => !startsOffset c) = zeroOffset := by decide
    rw [timeOfDay?, List.takeWhile_append_of_pos hAll, List.dropWhile_append_of_pos hAll, hTake,
      hDrop, List.append_nil, hClock]
    simp only
    rw [offset?_zero]
    rfl

-- ---------------------------------------------------------------------------
-- Timestamps
-- ---------------------------------------------------------------------------

variable {t : Timestamp}

/-- A local timestamp with a zero offset behind it has this offset, unless it is a date alone: then
the sign counts as what stands between date and time, and the local time is midnight as before. -/
theorem parts?_append_zero (h : parts? cs = some t) (hLocal : t.offset = none) :
    parts? (cs ++ zeroOffset) = some (if IsDate cs then t else { t with offset := some 0 }) := by
  simp only [parts?] at h
  split at h
  · cases h
  · rename_i d hDate hEnd
    cases h
    obtain ⟨hWithin, hLength⟩ := dateLength_append_of_date? hDate
    have hAll : cs.length ≤ dateLength cs := List.drop_eq_nil_iff.mp hEnd
    have hWhole : cs.take (dateLength cs) = cs := List.take_of_length_le hAll
    rw [parts?, hLength, List.take_append_of_le_length hWithin,
      List.drop_append_of_le_length hWithin, hDate, hEnd, if_pos (hWhole ▸ isDate_of_date? hDate)]
    rfl
  · rename_i d c rest hDate hRest
    obtain ⟨hWithin, hLength⟩ := dateLength_append_of_date? hDate
    obtain ⟨⟨clock, offset⟩, hTime, rfl⟩ := Option.map_eq_some_iff.mp h
    cases hLocal
    have hMore : ¬ IsDate cs := by
      intro hAlone
      rw [List.drop_of_length_le hAlone.dateLength_eq.ge] at hRest
      cases hRest
    rw [parts?, hLength, List.take_append_of_le_length hWithin,
      List.drop_append_of_le_length hWithin, hDate, hRest, if_neg hMore, List.cons_append]
    simp only
    rw [timeOfDay?_append_zero hTime]
    rfl

/-- A final letter for the offset zero is replaced by this offset. -/
theorem expandZulu_append {zulu : Char} (h : zulu = 'Z' ∨ zulu = 'z') (cs : List Char) :
    expandZulu (cs ++ [zulu]) = cs ++ zeroOffset := by
  have hZero : "+00:00".toList = zeroOffset := by decide
  rw [expandZulu, List.getLast?_concat, List.dropLast_concat, hZero]
  exact if_pos h

/-- Without such a letter nothing is replaced. -/
theorem expandZulu_eq_self (h : ¬ EndsInZulu cs) : expandZulu cs = cs := by
  unfold expandZulu
  split
  · rename_i c hLast
    rw [if_neg]
    rintro (rfl | rfl)
    · exact h (Or.inl hLast)
    · exact h (Or.inr hLast)
  · rfl

/-- A timestamp without an offset that is in range is in range with the offset zero. -/
theorem rangeFault_zero (hLocal : t.offset = none) (h : t.rangeFault = none) :
    ({ t with offset := some 0 } : Timestamp).rangeFault = none := by
  have hCalendar : t.calendarFault = none := by
    rwa [rangeFault, hLocal] at h
  exact hCalendar

/-- A local timestamp with the letter behind it is read with offset zero, unless it is a date alone,
which stays local. -/
theorem read_append {s : String} {zulu : Char} (hZulu : zulu = 'Z' ∨ zulu = 'z')
    (hEnd : ¬ EndsInZulu s.toList) (hRead : read s = .ok t) (hLocal : t.offset = none) :
    read (s ++ String.singleton zulu) =
      .ok (if IsDate s.toList then t else { t with offset := some 0 }) := by
  simp only [read, readChars, expandZulu_eq_self hEnd] at hRead
  split at hRead
  · cases hRead
  · rename_i there hParts
    split at hRead
    · cases hRead
    · rename_i hRange
      cases hRead
      have hInRange :
          (if IsDate s.toList then t else { t with offset := some 0 }).rangeFault = none := by
        split
        · exact hRange
        · exact rangeFault_zero hLocal hRange
      simp only [read, readChars, String.toList_append, String.toList_singleton,
        expandZulu_append hZulu, parts?_append_zero hParts hLocal, hInRange]

/-- A letter Z or z behind a text that is read without an offset gives the same date and time of
day with the offset zero, unless the text is a date alone; then it gives what the date alone
gives, which has no offset. -/
theorem read_zulu {s : String} {t : Timestamp} (hEnd : ¬ EndsInZulu s.toList)
    (hRead : read s = .ok t) (hLocal : t.offset = none) :
    ∀ zulu ∈ ["Z", "z"],
      (read (s ++ zulu) = .ok { t with offset := some 0 } ↔ ¬ IsDate s.toList) ∧
        (IsDate s.toList → read (s ++ zulu) = .ok t) := by
  intro zulu hZulu
  have hAppend : read (s ++ zulu) =
      .ok (if IsDate s.toList then t else { t with offset := some 0 }) := by
    obtain ⟨c, hc, rfl⟩ : ∃ c, (c = 'Z' ∨ c = 'z') ∧ zulu = String.singleton c := by
      simpa using hZulu
    exact read_append hc hEnd hRead hLocal
  have hDiffers : t ≠ { t with offset := some 0 } := by
    intro hEq
    have hOffset : t.offset = some 0 := congrArg Timestamp.offset hEq
    rw [hLocal] at hOffset
    cases hOffset
  rw [hAppend]
  by_cases hDate : IsDate s.toList
  · rw [if_pos hDate]
    refine ⟨⟨?_, fun hNot => absurd hDate hNot⟩, fun _ => rfl⟩
    intro hEq
    exact absurd (Except.ok.inj hEq) hDiffers
  · rw [if_neg hDate]
    exact ⟨⟨fun _ => hDate, fun _ => rfl⟩, fun hIs => absurd hIs hDate⟩

/-- The letter is lost behind a week date alone, and it counts when an hour stands in between. -/
theorem read_zulu_week :
    read ("2024-W01" ++ "Z") = .ok ⟨⟨2024, 1, 1⟩, 0, 0, 0, 0, none⟩ ∧
      read ("2024-W01-1 00" ++ "z") = .ok ⟨⟨2024, 1, 1⟩, 0, 0, 0, 0, some 0⟩ := by
  have hAlone : read "2024-W01" = .ok ⟨⟨2024, 1, 1⟩, 0, 0, 0, 0, none⟩ := by decide +kernel
  have hHour : read "2024-W01-1 00" = .ok ⟨⟨2024, 1, 1⟩, 0, 0, 0, 0, none⟩ := by decide +kernel
  exact ⟨(read_zulu (by decide) hAlone rfl "Z" (by decide)).2 (by decide),
    (read_zulu (by decide) hHour rfl "z" (by decide)).1.mpr (by decide)⟩

end BuildDigest.Timestamp
