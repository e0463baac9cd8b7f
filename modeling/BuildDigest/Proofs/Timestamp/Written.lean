import BuildDigest.Timestamp.Reader
import Mathlib.Algebra.Group.Nat.Defs
import Mathlib.Data.List.Induction

/-!
# Written timestamps are read back

A timestamp that was read, in whatever form, is written in one form, and that
form is read as the same timestamp.

Reading drops what a timestamp cannot hold: digits after the sixth decimal, and
an offset of less than a second. What is left is *exact*, and being exact is all
that a timestamp needs to be read back from its text.

* `Exact` — the timestamps that can be read.
* `exact_of_read` — what is read is exact.
* `read_text` — an exact timestamp is read from its text.
-/

namespace BuildDigest.Timestamp

/-- An offset that can be read: none at all, or at least a second. -/
def IsOffset (offset : Int) : Prop :=
  offset = 0 ∨ 1000000 ≤ offset.natAbs

/-- All parts are in range, and nothing is finer than what a text says. -/
structure Exact (t : Timestamp) : Prop where
  inRange : t.rangeFault = none
  microsecond : t.microsecond < 1000000
  offset : ∀ o, t.offset = some o → IsOffset o

-- ---------------------------------------------------------------------------
-- Digits
-- ---------------------------------------------------------------------------

/-- Digits are read from left to right, those behind going on from the value of those before. -/
theorem digitsFrom_append (acc : Nat) (cs ds : List Char) :
    digitsFrom acc (cs ++ ds) = digitsFrom (digitsFrom acc cs) ds := by
  induction cs generalizing acc with
  | nil => rfl
  | cons c cs ih => exact ih _

theorem digitsFrom_singleton (acc : Nat) (c : Char) :
    digitsFrom acc [c] = acc * 10 + (c.toNat - 0x30) := rfl

theorem length_padded (width n : Nat) : (padded width n).length = width := by
  induction width generalizing n with
  | zero => rfl
  | succ width ih => simp [padded, ih]

theorem toNat_digit (n : Nat) : (Char.ofNat (0x30 + n % 10)).toNat = 0x30 + n % 10 := by
  have hDigit : ∀ d < 10, (Char.ofNat (0x30 + d)).toNat = 0x30 + d := by decide
  exact hDigit _ (Nat.mod_lt _ (by omega))

theorem isDigit_digit (n : Nat) : isDigit (Char.ofNat (0x30 + n % 10)) = true := by
  have hDigit : ∀ d < 10, isDigit (Char.ofNat (0x30 + d)) = true := by decide
  exact hDigit _ (Nat.mod_lt _ (by omega))

/-- A padded number is written with digits only. -/
theorem isDigit_of_mem_padded {width n : Nat} {c : Char} (hc : c ∈ padded width n) :
    isDigit c = true := by
  induction width generalizing n with
  | zero => cases hc
  | succ width ih =>
    rw [padded, List.mem_append, List.mem_singleton] at hc
    rcases hc with hc | rfl
    · exact ih hc
    · exact isDigit_digit n

/-- Padded digits are read as the last digits of the number, behind those that were read before. -/
theorem digitsFrom_padded (acc width n : Nat) :
    digitsFrom acc (padded width n) = acc * 10 ^ width + n % 10 ^ width := by
  induction width generalizing n with
  | zero =>
    have hNone : digitsFrom acc (padded 0 n) = acc := rfl
    rw [hNone, Nat.pow_zero, Nat.mod_one, Nat.mul_one, Nat.add_zero]
  | succ width ih =>
    have hLast : n % 10 ^ (width + 1) = n % 10 + 10 * (n / 10 % 10 ^ width) := by
      rw [Nat.pow_succ, Nat.mul_comm, Nat.mod_mul]
    have hDigit : 0x30 + n % 10 - 0x30 = n % 10 := by omega
    rw [padded, digitsFrom_append, ih, digitsFrom_singleton, toNat_digit, hDigit, hLast,
      Nat.pow_succ, ← Nat.mul_assoc]
    omega

/-- A number that fits is read from its digits. -/
theorem digits?_padded (width : Nat) {n : Nat} (hn : n < 10 ^ width) (rest : List Char) :
    digits? width (padded width n ++ rest) = some (n, rest) := by
  have hLength := length_padded width n
  have hTake : (padded width n ++ rest).take width = padded width n := by
    rw [List.take_append_of_le_length (by omega), List.take_of_length_le (by omega)]
  have hDrop : (padded width n ++ rest).drop width = rest := by
    rw [List.drop_append_of_le_length (by omega), List.drop_of_length_le (by omega),
      List.nil_append]
  have hAll : (padded width n).all isDigit = true :=
    List.all_eq_true.mpr fun c hc => isDigit_of_mem_padded hc
  have hValue : digitsFrom 0 (padded width n) = n := by
    rw [digitsFrom_padded, Nat.zero_mul, Nat.zero_add, Nat.mod_eq_of_lt hn]
  simp only [digits?, hTake, hDrop]
  rw [if_pos ⟨hLength, hAll⟩, hValue]

theorem padded_two (n : Nat) : ∃ c d, padded 2 n = [c, d] :=
  ⟨_, _, rfl⟩

/-- Digits write a number with no more digits. -/
theorem digitsFrom_lt {cs : List Char} (h : ∀ c ∈ cs, isDigit c = true) :
    digitsFrom 0 cs < 10 ^ cs.length := by
  -- the last digit has the least weight
  induction cs using List.reverseRecOn with
  | nil => exact Nat.one_pos
  | append_singleton cs c ih =>
    have hDigit : isDigit c = true := h c (by simp)
    have hc : c.toNat ≤ 0x39 := by
      simp only [isDigit, Bool.and_eq_true, decide_eq_true_eq] at hDigit
      exact hDigit.2
    have hRest := ih fun d hd => h d (List.mem_append_left _ hd)
    rw [digitsFrom_append, digitsFrom_singleton, List.length_append, List.length_singleton,
      Nat.pow_succ]
    omega

/-- So many digits make a number below that power of ten. -/
theorem lt_of_digits? {count n : Nat} {cs rest : List Char}
    (h : digits? count cs = some (n, rest)) : n < 10 ^ count := by
  simp only [digits?] at h
  split at h
  · next hRun =>
    cases h
    have hLt := digitsFrom_lt (List.all_eq_true.mp hRun.2)
    rwa [hRun.1] at hLt
  · cases h

-- ---------------------------------------------------------------------------
-- What is read is exact
-- ---------------------------------------------------------------------------

/-- Six digits of a fraction make less than a second, whether they were given or filled up. -/
theorem fraction?_microsecond {clock c : Clock} {cs : List Char}
    (h : fraction? clock cs = some c) : c.microsecond < 1000000 := by
  simp only [fraction?] at h
  split at h
  · cases h
  · next n rest hDigits =>
    cases h
    have hn := lt_of_digits? hDigits
    have hCount : min 6 cs.length ≤ 6 := Nat.min_le_left ..
    show n * 10 ^ (6 - min 6 cs.length) < 10 ^ 6
    calc n * 10 ^ (6 - min 6 cs.length)
        < 10 ^ min 6 cs.length * 10 ^ (6 - min 6 cs.length) :=
          Nat.mul_lt_mul_of_pos_right hn (Nat.pow_pos (by omega))
      _ = 10 ^ 6 := by rw [← Nat.pow_add, Nat.add_sub_cancel' hCount]

/-- A stray character behind the seconds leaves the fraction alone. -/
theorem stray?_microsecond {clock c : Clock} {x : Char} (h : stray? clock x = some c) :
    c.microsecond = clock.microsecond := by
  simp only [stray?] at h
  split at h
  · cases h
    rfl
  · cases h

section

variable {clock c : Clock} {cs : List Char}

/-- Behind the seconds there may be a fraction, and it is less than a second. -/
theorem afterSecond?_microsecond (hClock : clock.microsecond < 1000000) {colons : Bool}
    (h : afterSecond? colons clock cs = some c) : c.microsecond < 1000000 := by
  unfold afterSecond? at h
  split at h
  · cases h
    exact hClock
  · rw [stray?_microsecond h]
    exact hClock
  · split at h
    · exact fraction?_microsecond h
    · split at h
      · cases h
      · exact fraction?_microsecond h

/-- Behind the minutes there may be seconds, and their fraction is less than a second. -/
theorem afterMinute?_microsecond (hClock : clock.microsecond < 1000000) {colons : Bool}
    (h : afterMinute? colons clock cs = some c) : c.microsecond < 1000000 := by
  unfold afterMinute? at h
  split at h
  · cases h
    exact hClock
  · rw [stray?_microsecond h]
    exact hClock
  · split at h
    · exact fraction?_microsecond h
    · split at h
      · cases h
      · split at h
        · cases h
        · exact afterSecond?_microsecond (by exact hClock) h

/-- Behind the hours there may be minutes, and the fraction of their seconds is less than a
second. -/
theorem afterHour?_microsecond (hClock : clock.microsecond < 1000000)
    (h : afterHour? clock cs = some c) : c.microsecond < 1000000 := by
  unfold afterHour? at h
  split at h
  · cases h
    exact hClock
  · rw [stray?_microsecond h]
    exact hClock
  · split at h
    · exact fraction?_microsecond h
    · split at h
      · cases h
      · exact afterMinute?_microsecond (by exact hClock) h

/-- A clock that is read has a fraction of less than a second. -/
theorem clock?_microsecond (h : clock? cs = some c) : c.microsecond < 1000000 := by
  simp only [clock?] at h
  split at h
  · cases h
  · next hour rest _ =>
    have hNone : ({ hour } : Clock).microsecond < 1000000 := by
      show 0 < 1000000
      omega
    exact afterHour?_microsecond hNone h

/-- An offset counts only when it has a whole second. -/
theorem isOffset_offsetOf (negative : Bool) (c : Clock) : IsOffset (offsetOf negative c) := by
  simp only [offsetOf]
  split
  · exact Or.inl rfl
  · right
    cases negative
    · simp only [Bool.false_eq_true, if_false]
      omega
    · simp only [if_true]
      omega

/-- An offset that is read is zero, or a second at least. -/
theorem isOffset_of_offset? {o : Int} (h : offset? clock cs = some (some o)) : IsOffset o := by
  unfold offset? at h
  split at h
  · split at h <;> cases h
  · split at h
    · cases h
      exact Or.inl rfl
    · cases h
  · split at h
    · split at h
      · cases h
        exact isOffset_offsetOf _ _
      · cases h
    · cases h

end

/-- The parts of a timestamp that is read are no finer than what is kept of a text. -/
theorem of_parts? {cs : List Char} {t : Timestamp} (h : parts? cs = some t) :
    t.microsecond < 1000000 ∧ ∀ o, t.offset = some o → IsOffset o := by
  simp only [parts?] at h
  split at h
  · cases h
  · cases h
    exact ⟨by show 0 < 1000000; omega, nofun⟩
  · next date _ rest _ _ =>
    obtain ⟨⟨clock, offset⟩, hTime, rfl⟩ := Option.map_eq_some_iff.mp h
    unfold timeOfDay? at hTime
    split at hTime
    · cases hTime
    · next c hClock =>
      obtain ⟨o, hOffset, hPair⟩ := Option.map_eq_some_iff.mp hTime
      obtain ⟨rfl, rfl⟩ := Prod.mk.inj hPair
      refine ⟨clock?_microsecond hClock, fun o' ho' => ?_⟩
      have ho' : o = some o' := ho'
      rw [ho'] at hOffset
      exact isOffset_of_offset? hOffset

/-- What is read is exact. -/
theorem exact_of_read {s : String} {t : Timestamp} (h : read s = .ok t) : t.Exact := by
  simp only [read, readChars] at h
  split at h
  · cases h
  · next t' hParts =>
    split at h
    · cases h
    · next hRange =>
      cases h
      obtain ⟨hMicrosecond, hOffset⟩ := of_parts? hParts
      exact ⟨hRange, hMicrosecond, hOffset⟩

-- ---------------------------------------------------------------------------
-- An exact timestamp is read from its text
-- ---------------------------------------------------------------------------

/-- The bounds that a timestamp in range keeps. -/
theorem bounds_of_calendarFault {t : Timestamp} (h : t.calendarFault = none) :
    t.date.year < 10000 ∧ t.date.month < 100 ∧ t.date.day < 100 ∧ t.hour < 100 ∧
      t.minute < 100 ∧ t.second < 100 := by
  have hDays : Calendar.daysInMonth t.date.year t.date.month ≤ 31 := by
    unfold Calendar.daysInMonth
    split
    case h_12 => split <;> omega
    all_goals omega
  simp only [calendarFault] at h
  split at h
  · cases h
  split at h
  · cases h
  split at h
  · cases h
  split at h
  · cases h
  split at h
  · cases h
  split at h
  · cases h
  omega

/-- Six digits of a fraction are read as its microseconds. -/
theorem fraction?_padded (clock : Clock) {microsecond : Nat} (h : microsecond < 1000000) :
    fraction? clock (padded 6 microsecond) = some { clock with microsecond, clean := true } := by
  have hDigits : digits? 6 (padded 6 microsecond) = some (microsecond, []) := by
    have hPadded := digits?_padded 6 h []
    rwa [List.append_nil] at hPadded
  have hCount : min 6 (padded 6 microsecond).length = 6 := by rw [length_padded, Nat.min_self]
  simp only [fraction?, hCount, hDigits]
  simp [ended]

/-- A written fraction is read back; zero is not written. -/
theorem afterSecond?_chars {hour minute second microsecond : Nat} (h : microsecond < 1000000) :
    afterSecond? true { hour, minute, second }
        (if microsecond = 0 then [] else '.' :: padded 6 microsecond) =
      some { hour, minute, second, microsecond } := by
  by_cases hZero : microsecond = 0
  · rw [if_pos hZero, hZero]
    rfl
  · have hFraction := fraction?_padded { hour, minute, second } h
    rw [if_neg hZero]
    exact hFraction

/-- Written seconds are read back, with the fraction behind them. -/
theorem afterMinute?_chars {hour minute second microsecond : Nat} (hSecond : second < 100)
    (hMicrosecond : microsecond < 1000000) :
    afterMinute? true { hour, minute }
        (':' :: (padded 2 second ++
          if microsecond = 0 then [] else '.' :: padded 6 microsecond)) =
      some { hour, minute, second, microsecond } := by
  have hDigits := digits?_padded 2 hSecond
    (if microsecond = 0 then [] else '.' :: padded 6 microsecond)
  have hRest := @afterSecond?_chars hour minute second microsecond hMicrosecond
  obtain ⟨c, d, hPadded⟩ := padded_two second
  rw [hPadded, List.cons_append] at hDigits ⊢
  simp only [afterMinute?, isPoint, if_true, hDigits]
  exact hRest

/-- Written minutes are read back, and what follows is read from there. -/
theorem afterHour?_chars {hour minute : Nat} (hMinute : minute < 100) (rest : List Char) :
    afterHour? { hour } (':' :: (padded 2 minute ++ rest)) =
      afterMinute? true { hour, minute } rest := by
  have hDigits := digits?_padded 2 hMinute rest
  obtain ⟨c, d, hPadded⟩ := padded_two minute
  rw [hPadded, List.cons_append] at hDigits ⊢
  simp only [afterHour?, isPoint, if_true, hDigits]
  rfl

/-- A time of day is read from the characters that write it. -/
theorem clock?_clockChars {hour minute second microsecond : Nat} (hHour : hour < 100)
    (hMinute : minute < 100) (hSecond : second < 100) (hMicrosecond : microsecond < 1000000)
    (secondsOptional : Bool) :
    clock? (clockChars hour minute second microsecond secondsOptional) =
      some { hour, minute, second, microsecond } := by
  simp only [clockChars, List.append_assoc, List.cons_append, clock?, digits?_padded 2 hHour,
    afterHour?_chars hMinute]
  split
  · next hNone =>
    -- the seconds are left out only when there are none
    simp only [Bool.and_eq_true, beq_iff_eq] at hNone
    obtain ⟨⟨-, rfl⟩, rfl⟩ := hNone
    rfl
  · exact afterMinute?_chars hSecond hMicrosecond

-- ---------------------------------------------------------------------------
-- Offsets and dates
-- ---------------------------------------------------------------------------

/-- The characters of a written time of day. -/
def isClockChar (c : Char) : Bool :=
  isDigit c || c == ':' || c == '.'

/-- A padded number is made of characters of a clock. -/
theorem all_padded (width n : Nat) : (padded width n).all isClockChar = true := by
  rw [List.all_eq_true]
  intro c hc
  rw [isClockChar, isDigit_of_mem_padded hc]
  rfl

/-- A written time of day is made of characters of a clock. -/
theorem all_clockChars (hour minute second microsecond : Nat) (secondsOptional : Bool) :
    (clockChars hour minute second microsecond secondsOptional).all isClockChar = true := by
  have hColon : isClockChar ':' = true := rfl
  have hPoint : isClockChar '.' = true := rfl
  unfold clockChars
  split
  · simp [all_padded, hColon]
  · split
    · simp [all_padded, hColon]
    · simp [all_padded, hColon, hPoint]

/-- No character of a clock starts an offset, so the time of day ends where the offset starts. -/
theorem startsOffset_of_isClockChar {c : Char} (h : isClockChar c = true) :
    startsOffset c = false := by
  by_contra hStarts
  rw [Bool.not_eq_false] at hStarts
  simp only [startsOffset, Bool.or_eq_true, beq_iff_eq] at hStarts
  rcases hStarts with (rfl | rfl) | rfl <;> cases h

/-- An offset is put together again from its hours, minutes, seconds and microseconds, with its
sign. -/
theorem offsetOf_parts {o : Int} (hOffset : IsOffset o) :
    offsetOf (decide (o < 0))
        { hour := o.natAbs / 1000000 / 3600, minute := o.natAbs / 1000000 / 60 % 60,
          second := o.natAbs / 1000000 % 60, microsecond := o.natAbs % 1000000 } = o := by
  have hSeconds : o.natAbs / 1000000 / 3600 * 3600 + o.natAbs / 1000000 / 60 % 60 * 60 +
      o.natAbs / 1000000 % 60 = o.natAbs / 1000000 := by omega
  simp only [offsetOf, hSeconds]
  rcases hOffset with rfl | hLarge
  · rfl
  · rw [if_neg (by omega)]
    by_cases hNegative : o < 0
    · rw [decide_eq_true hNegative, if_pos rfl]
      omega
    · rw [decide_eq_false hNegative, if_neg Bool.false_ne_true]
      omega

/-- A sign with a clock behind it is an offset, unless something is left behind the clock. -/
theorem offset?_cons {clock c : Clock} {sign : Char} {rest : List Char} (hSign : sign ≠ 'Z')
    (hClock : clock? rest = some c) (hClean : c.clean = true) :
    offset? clock (sign :: rest) = some (some (offsetOf (sign == '-') c)) := by
  unfold offset?
  split
  · next hNil => cases hNil
  · next hZulu =>
    cases hZulu
    exact absurd rfl hSign
  · next hCons =>
    cases hCons
    rw [hClock]
    simp [hClean]

/-- An offset that can be read is read from the characters that write it. -/
theorem offset?_offsetChars (clock : Clock) {o : Int} (hOffset : IsOffset o)
    (hLow : -dayLength < o) (hHigh : o < dayLength) :
    offset? clock (offsetChars o) = some (some o) := by
  have hDay : o.natAbs < 86400000000 := by
    simp only [dayLength] at hLow hHigh
    omega
  have hClock := @clock?_clockChars (o.natAbs / 1000000 / 3600) (o.natAbs / 1000000 / 60 % 60)
    (o.natAbs / 1000000 % 60) (o.natAbs % 1000000) (by omega) (by omega) (by omega) (by omega) true
  have hParts := offsetOf_parts hOffset
  simp only [offsetChars]
  by_cases hNegative : o < 0
  · rw [decide_eq_true hNegative] at hParts
    rw [if_pos hNegative, offset?_cons (by decide) hClock rfl]
    exact congrArg (some ∘ some) hParts
  · rw [decide_eq_false hNegative] at hParts
    rw [if_neg hNegative, offset?_cons (by decide) hClock rfl]
    exact congrArg (some ∘ some) hParts

/-- Nothing out of range means that date, time and offset are all in range. -/
theorem bounds_of_rangeFault {t : Timestamp} (h : t.rangeFault = none) :
    t.calendarFault = none ∧ ∀ o, t.offset = some o → -dayLength < o ∧ o < dayLength := by
  unfold rangeFault at h
  split at h
  · next o hOffset =>
    split at h
    · cases h
    · refine ⟨h, fun o' ho' => ?_⟩
      rw [hOffset] at ho'
      cases ho'
      omega
  · next hNone =>
    refine ⟨h, fun o ho => ?_⟩
    rw [hNone] at ho
    cases ho

/-- What is written after the time of day. -/
def tailChars (offset : Option Int) : List Char :=
  match offset with
  | none => []
  | some o => offsetChars o

/-- A time of day and an offset are told apart by the sign of the offset. -/
theorem span_clockChars {clock : List Char} (hClock : clock.all isClockChar = true)
    (offset : Option Int) :
    ((clock ++ tailChars offset).takeWhile fun c => !startsOffset c) = clock ∧
      ((clock ++ tailChars offset).dropWhile fun c => !startsOffset c) = tailChars offset := by
  have hGoOn : ∀ c ∈ clock, (!startsOffset c) = true := by
    intro c hc
    rw [startsOffset_of_isClockChar (List.all_eq_true.mp hClock c hc)]
    rfl
  have hTail : ((tailChars offset).takeWhile fun c => !startsOffset c) = [] ∧
      ((tailChars offset).dropWhile fun c => !startsOffset c) = tailChars offset := by
    cases offset with
    | none => exact ⟨rfl, rfl⟩
    | some o =>
      simp only [tailChars, offsetChars]
      split
      · exact ⟨rfl, rfl⟩
      · exact ⟨rfl, rfl⟩
  rw [List.takeWhile_append_of_pos hGoOn, List.dropWhile_append_of_pos hGoOn, hTail.1, hTail.2,
    List.append_nil]
  exact ⟨rfl, rfl⟩

/-- A written time of day is read back, with the offset behind it. -/
theorem timeOfDay?_chars {t : Timestamp} (h : t.Exact) :
    timeOfDay? (clockChars t.hour t.minute t.second t.microsecond false ++ tailChars t.offset) =
      some ({ hour := t.hour, minute := t.minute, second := t.second, microsecond := t.microsecond },
        t.offset) := by
  obtain ⟨hCalendar, hOffset⟩ := bounds_of_rangeFault h.inRange
  obtain ⟨-, -, -, hHour, hMinute, hSecond⟩ := bounds_of_calendarFault hCalendar
  obtain ⟨hTake, hDrop⟩ := span_clockChars
    (all_clockChars t.hour t.minute t.second t.microsecond false) t.offset
  have hClock := clock?_clockChars hHour hMinute hSecond h.microsecond false
  simp only [timeOfDay?, hTake, hDrop, hClock]
  cases hGiven : t.offset with
  | none => rfl
  | some o =>
    obtain ⟨hLow, hHigh⟩ := hOffset o hGiven
    rw [tailChars, offset?_offsetChars _ (h.offset o hGiven) hLow hHigh]
    rfl

-- ---------------------------------------------------------------------------
-- The whole text
-- ---------------------------------------------------------------------------

def dateChars (d : Calendar.Date) : List Char :=
  padded 4 d.year ++ '-' :: (padded 2 d.month ++ '-' :: padded 2 d.day)

/-- A written timestamp is its date, a letter, its time of day and its offset. -/
theorem chars_eq (t : Timestamp) :
    t.chars = dateChars t.date ++
      'T' :: (clockChars t.hour t.minute t.second t.microsecond false ++ tailChars t.offset) := by
  unfold chars dateChars tailChars
  cases t.offset with
  | none => simp only [List.append_assoc, List.cons_append]
  | some o => simp only [List.append_assoc, List.cons_append]

theorem ne_of_isDigit {c : Char} (h : isDigit c = true) : c ≠ 'W' := by
  rintro rfl
  cases h

/-- A date is read from the characters that write it. -/
theorem date?_dateChars {d : Calendar.Date} (hYear : d.year < 10000) (hMonth : d.month < 100)
    (hDay : d.day < 100) : date? (dateChars d) = some d := by
  have hYearDigits := digits?_padded 4 hYear
    ('-' :: (padded 2 d.month ++ '-' :: padded 2 d.day))
  have hMonthDigits := digits?_padded 2 hMonth ('-' :: padded 2 d.day)
  have hDayDigits : day? 2 true ('-' :: padded 2 d.day) = some d.day := by
    have hDigits := digits?_padded 2 hDay []
    rw [List.append_nil] at hDigits
    simp only [day?, hDigits]
  -- a month starts with a digit, so the date is no week date
  have hFirst : ∀ c ∈ padded 2 d.month, c ≠ 'W' := fun c hc =>
    ne_of_isDigit (isDigit_of_mem_padded hc)
  obtain ⟨c, e, hPadded⟩ := padded_two d.month
  rw [hPadded] at hYearDigits hMonthDigits hFirst
  simp only [date?, dateChars, hPadded, hYearDigits]
  split
  · next hWeek =>
    injection hWeek with hc
    exact absurd hc (hFirst c (List.mem_cons_self ..))
  · rw [hMonthDigits]
    simp only [hDayDigits]
    rfl

/-- A written date has ten characters: four, two and two digits with dashes between them. -/
theorem length_dateChars (d : Calendar.Date) : (dateChars d).length = 10 := by
  simp [dateChars, length_padded]

/-- A written date is measured as ten characters, whatever follows it. -/
theorem dateLength_dateChars (d : Calendar.Date) (rest : List Char) :
    dateLength (dateChars d ++ rest) = 10 := by
  have hLength : (dateChars d ++ rest).length ≠ 7 := by
    rw [List.length_append, length_dateChars]
    omega
  have hFirst : ∀ c ∈ padded 2 d.month, c ≠ 'W' := fun c hc =>
    ne_of_isDigit (isDigit_of_mem_padded hc)
  obtain ⟨c, e, hPadded⟩ := padded_two d.month
  rw [hPadded] at hFirst
  have hDash : (dateChars d ++ rest)[4]? = some '-' := rfl
  have hMonth : (dateChars d ++ rest)[5]? = some c := by
    rw [dateChars, hPadded]
    rfl
  have hNoWeek : ¬some c = some 'W' := fun hc =>
    hFirst c (List.mem_cons_self ..) (Option.some.inj hc)
  rw [dateLength, if_neg hLength, if_pos hDash, hMonth, if_neg hNoWeek]

/-- The characters of a written timestamp; the letter that stands for the offset zero is none. -/
def isStampChar (c : Char) : Bool :=
  isClockChar c || c == '-' || c == '+' || c == 'T'

theorem isStampChar_of_isClockChar {c : Char} (h : isClockChar c = true) :
    isStampChar c = true := by
  simp [isStampChar, h]

/-- A written timestamp holds no letter for the offset zero. -/
theorem isStampChar_of_mem_chars {t : Timestamp} {c : Char} (hc : c ∈ t.chars) :
    isStampChar c = true := by
  have hPadded : ∀ {width n : Nat}, c ∈ padded width n → isStampChar c = true := fun hc =>
    isStampChar_of_isClockChar (List.all_eq_true.mp (all_padded _ _) c hc)
  have hClock : ∀ {h m s us : Nat} {b : Bool}, c ∈ clockChars h m s us b → isStampChar c = true :=
    fun hc => isStampChar_of_isClockChar (List.all_eq_true.mp (all_clockChars _ _ _ _ _) c hc)
  rw [chars_eq, dateChars] at hc
  simp only [List.mem_append, List.mem_cons] at hc
  rcases hc with (hc | rfl | hc | rfl | hc) | rfl | hc | hc
  · exact hPadded hc
  · rfl
  · exact hPadded hc
  · rfl
  · exact hPadded hc
  · rfl
  · exact hClock hc
  · cases hOffset : t.offset with
    | none =>
      rw [hOffset] at hc
      cases hc
    | some o =>
      rw [hOffset, tailChars, offsetChars, List.mem_cons] at hc
      rcases hc with rfl | hc
      · split <;> rfl
      · exact hClock hc

/-- So a written timestamp is not changed by replacing such a letter. -/
theorem expandZulu_chars (t : Timestamp) : expandZulu t.chars = t.chars := by
  unfold expandZulu
  split
  · next c hLast =>
    have hStamp := isStampChar_of_mem_chars (List.mem_of_getLast? hLast)
    rw [if_neg]
    rintro (rfl | rfl) <;> cases hStamp
  · rfl

/-- Exact parts are read back from the text that they are written as. -/
theorem parts?_chars {t : Timestamp} (h : t.Exact) : parts? t.chars = some t := by
  obtain ⟨hCalendar, -⟩ := bounds_of_rangeFault h.inRange
  obtain ⟨hYear, hMonth, hDay, -⟩ := bounds_of_calendarFault hCalendar
  have hLength := length_dateChars t.date
  have hDate := date?_dateChars hYear hMonth hDay
  rw [chars_eq, parts?, dateLength_dateChars, List.take_left' hLength, List.drop_left' hLength, hDate]
  simp only [timeOfDay?_chars h]
  rfl

/-- An exact timestamp is read from its text. -/
theorem read_text {t : Timestamp} (h : t.Exact) : read t.text = .ok t := by
  rw [read, text, String.toList_ofList, readChars, expandZulu_chars, parts?_chars h]
  simp only [h.inRange]

theorem text_ne_empty (t : Timestamp) : t.text ≠ "" := by
  intro hEmpty
  have hNil : t.chars = [] := String.ofList_eq_empty_iff.mp hEmpty
  rw [chars_eq, List.append_eq_nil_iff] at hNil
  cases hNil.2

end BuildDigest.Timestamp
