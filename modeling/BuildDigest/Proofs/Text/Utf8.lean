import BuildDigest.Text.Utf8
import Mathlib.Data.Char

/-!
# What is written as UTF-8 is what is read

`String.toUTF8` writes every character as one to four octets: a lead octet, and
after it octets with six bits each. Decoding reads the lead octet first and takes
the others by it, so a character in front of any octets is read as one step; no
overlong form, surrogate or code beyond the range is ever written, and none is read.

Main statements.
* `step_utf8EncodeChar` — the octets of a character are read as this character.
* `decode_toUTF8` — the octets of a text are decoded to this text, without a fault.
* `Reads.utf8EncodeChar_eq` — octets that are read as a character are those of this character.
* `decode_eq_none_iff` — octets are decoded without a fault exactly when they are those of a text.
-/

namespace BuildDigest.Text.Utf8

-- ---------------------------------------------------------------------------
-- Octets after the first
-- ---------------------------------------------------------------------------

/-- The octet after the first of a character that holds the low six bits of a number. -/
def follower (n : Nat) : UInt8 :=
  UInt8.ofNat (n % 64 + 128)

theorem toNat_follower (n : Nat) : (follower n).toNat = n % 64 + 128 :=
  UInt8.toNat_ofNat_of_lt' (by simp only [UInt8.size]; omega)

/-- The six low bits of a number under the mark of a follower make a follower. -/
theorem isContinuation_follower (n : Nat) : isContinuation (follower n) = true := by
  simp only [isContinuation, UInt8.le_iff_toNat_le, UInt8.lt_iff_toNat_lt, toNat_follower,
    UInt8.reduceToNat, Bool.and_eq_true, decide_eq_true_eq]
  omega

theorem payload_follower (n : Nat) : payload (follower n) = n % 64 := by
  rw [payload, toNat_follower]
  omega

/-- A follower may come second behind the leads that restrict it if its bits are in their ranges. -/
theorem isSecond_follower {lead : UInt8} {n : Nat} (hE0 : lead.toNat = 0xe0 → 32 ≤ n % 64)
    (hEd : lead.toNat = 0xed → n % 64 < 32) (hF0 : lead.toNat = 0xf0 → 16 ≤ n % 64)
    (hF4 : lead.toNat = 0xf4 → n % 64 < 16) : isSecond lead (follower n) = true := by
  simp only [isSecond, isContinuation_follower, UInt8.le_iff_toNat_le, UInt8.lt_iff_toNat_lt,
    toNat_follower, ne_eq, ← UInt8.toNat_inj, UInt8.reduceToNat, Bool.true_and, Bool.not_eq_true',
    Bool.or_eq_false_iff, Bool.and_eq_false_iff, beq_eq_false_iff_ne, decide_eq_false_iff_not]
  omega

-- ---------------------------------------------------------------------------
-- Characters
-- ---------------------------------------------------------------------------

/-- The leads of two to four octets are neither ASCII nor excluded. -/
theorem lead_bounds {lead : UInt8} (hLow : 0xc2 ≤ lead.toNat) (hHigh : lead.toNat < 0xf5) :
    ¬ lead < 0x80 ∧ (decide (lead < 0xc2) || decide (0xf5 ≤ lead)) = false := by
  simp only [UInt8.lt_iff_toNat_lt, UInt8.le_iff_toNat_le, UInt8.reduceToNat,
    Bool.or_eq_false_iff, decide_eq_false_iff_not]
  omega

section

variable {lead : UInt8} {n : Nat} (hSecond : isSecond lead (follower n) = true)
include hSecond

/-- Two octets with a lead of two are read as the character of their bits. -/
theorem step_two (hLow : 0xc2 ≤ lead.toNat) (hHigh : lead.toNat < 0xe0) (rest : List UInt8) :
    step lead (follower n :: rest) =
      .char (Char.ofNat (lead.toNat % 32 * 64 + n % 64)) 2 := by
  have hTwo : lead < 0xe0 := UInt8.lt_iff_toNat_lt.mpr hHigh
  obtain ⟨hOne, hStart⟩ := lead_bounds hLow (by omega)
  simp [step, hOne, hStart, hSecond, hTwo, payload_follower]

/-- Three octets with a lead of three are read as the character of their bits, where the second one
may come second. -/
theorem step_three (hLow : 0xe0 ≤ lead.toNat) (hHigh : lead.toNat < 0xf0) (m : Nat)
    (rest : List UInt8) :
    step lead (follower n :: follower m :: rest) =
      .char (Char.ofNat ((lead.toNat % 16 * 64 + n % 64) * 64 + m % 64)) 3 := by
  have hTwo : ¬ lead < 0xe0 := UInt8.lt_iff_toNat_lt.not.mpr (Nat.not_lt.mpr hLow)
  have hThree : lead < 0xf0 := UInt8.lt_iff_toNat_lt.mpr hHigh
  obtain ⟨hOne, hStart⟩ := @lead_bounds lead (by omega) (by omega)
  simp [step, hOne, hStart, hSecond, hTwo, hThree, isContinuation_follower, payload_follower]

/-- Four octets with a lead of four are read as the character of their bits, where the second one
may come second. -/
theorem step_four (hLow : 0xf0 ≤ lead.toNat) (hHigh : lead.toNat < 0xf5) (m k : Nat)
    (rest : List UInt8) :
    step lead (follower n :: follower m :: follower k :: rest) =
      .char (Char.ofNat (((lead.toNat % 8 * 64 + n % 64) * 64 + m % 64) * 64 + k % 64)) 4 := by
  have hTwo : ¬ lead < 0xe0 := by
    simp only [UInt8.lt_iff_toNat_lt, UInt8.reduceToNat]
    omega
  have hThree : ¬ lead < 0xf0 := UInt8.lt_iff_toNat_lt.not.mpr (Nat.not_lt.mpr hLow)
  obtain ⟨hOne, hStart⟩ := @lead_bounds lead (by omega) hHigh
  simp [step, hOne, hStart, hSecond, hTwo, hThree, isContinuation_follower, payload_follower]

end

/-- The octets that are written for a character, with those after the first by their bits. -/
theorem utf8EncodeChar_eq (c : Char) :
    String.utf8EncodeChar c =
      if c.toNat ≤ 0x7f then [UInt8.ofNat c.toNat]
      else if c.toNat ≤ 0x7ff then [UInt8.ofNat (c.toNat / 64 % 32 + 192), follower c.toNat]
      else if c.toNat ≤ 0xffff then
        [UInt8.ofNat (c.toNat / 4096 % 16 + 224), follower (c.toNat / 64), follower c.toNat]
      else
        [UInt8.ofNat (c.toNat / 262144 % 8 + 240), follower (c.toNat / 4096),
          follower (c.toNat / 64), follower c.toNat] := rfl

/-- The first octets of a written character are read as that character. -/
theorem step_utf8EncodeChar (c : Char) (rest : List UInt8) :
    ∃ lead more, String.utf8EncodeChar c = lead :: more ∧
      step lead (more ++ rest) = .char c (more.length + 1) := by
  have hValid : c.toNat < 0xd800 ∨ (0xdfff < c.toNat ∧ c.toNat < 0x110000) := c.valid
  have hSelf : Char.ofNat c.toNat = c := Char.ofNat_toNat c
  have hToNat {n : Nat} (hn : n < 256) : (UInt8.ofNat n).toNat = n := UInt8.toNat_ofNat_of_lt' hn
  rw [utf8EncodeChar_eq]
  generalize c.toNat = v at hValid hSelf
  split
  · next hOne =>
    refine ⟨_, [], rfl, ?_⟩
    have hLead := hToNat (n := v) (by omega)
    have hSmall : UInt8.ofNat v < 0x80 := by
      simp only [UInt8.lt_iff_toNat_lt, hLead, UInt8.reduceToNat]
      omega
    rw [List.nil_append, step.eq_def, if_pos hSmall, hLead, hSelf]
    rfl
  · split
    · next hTwo =>
      refine ⟨_, [_], rfl, ?_⟩
      have hLead := hToNat (n := v / 64 % 32 + 192) (by omega)
      have hSecond : isSecond (UInt8.ofNat (v / 64 % 32 + 192)) (follower v) = true := by
        apply isSecond_follower <;> omega
      have hCode : (v / 64 % 32 + 192) % 32 * 64 + v % 64 = v := by omega
      rw [List.singleton_append, step_two hSecond (by omega) (by omega), hLead, hCode, hSelf]
      rfl
    · split
      · next hThree =>
        refine ⟨_, [_, _], rfl, ?_⟩
        have hLead := hToNat (n := v / 4096 % 16 + 224) (by omega)
        have hSecond :
            isSecond (UInt8.ofNat (v / 4096 % 16 + 224)) (follower (v / 64)) = true := by
          apply isSecond_follower <;> omega
        have hCode : ((v / 4096 % 16 + 224) % 16 * 64 + v / 64 % 64) * 64 + v % 64 = v := by omega
        rw [List.cons_append, List.singleton_append,
          step_three hSecond (by omega) (by omega), hLead, hCode, hSelf]
        rfl
      · refine ⟨_, [_, _, _], rfl, ?_⟩
        have hLead := hToNat (n := v / 262144 % 8 + 240) (by omega)
        have hSecond :
            isSecond (UInt8.ofNat (v / 262144 % 8 + 240)) (follower (v / 4096)) = true := by
          apply isSecond_follower <;> omega
        have hCode : (((v / 262144 % 8 + 240) % 8 * 64 + v / 4096 % 64) * 64 + v / 64 % 64) * 64 +
            v % 64 = v := by omega
        rw [List.cons_append, List.cons_append, List.singleton_append,
          step_four hSecond (by omega) (by omega), hLead, hCode, hSelf]
        rfl

-- ---------------------------------------------------------------------------
-- Texts
-- ---------------------------------------------------------------------------

/-- Decoding the codes of characters gives these characters, behind those that were decoded
before. -/
theorem decodeFrom_flatMap (position : Nat) (before cs : List Char) :
    decodeFrom position before (cs.flatMap String.utf8EncodeChar) =
      (before.reverse ++ cs, none) := by
  induction cs generalizing position before with
  | nil => rw [List.flatMap_nil, decodeFrom, List.append_nil]
  | cons c cs ih =>
    obtain ⟨lead, more, hOctets, hStep⟩ :=
      step_utf8EncodeChar c (cs.flatMap String.utf8EncodeChar)
    rw [List.flatMap_cons, hOctets, List.cons_append, decodeFrom, hStep]
    simp only [Nat.add_sub_cancel, List.drop_left]
    rw [ih, List.reverse_cons, List.append_assoc, List.singleton_append]

/-- The octets of a text are the codes of its characters in a row. -/
theorem octets_toUTF8 (text : String) :
    text.toUTF8.data.toList = text.toList.flatMap String.utf8EncodeChar := by
  show text.toByteArray.data.toList = _
  rw [← String.utf8Encode_toList, List.utf8Encode, List.toList_data_toByteArray]

/-- The octets of a text are decoded to this text. -/
theorem decode_toUTF8 (text : String) :
    decode text.toUTF8.data.toList = (text.toList, none) := by
  rw [octets_toUTF8]
  exact decodeFrom_flatMap 0 [] text.toList

-- ---------------------------------------------------------------------------
-- What is read is what is written
-- ---------------------------------------------------------------------------

/-- The octets that are read as a character: a lead octet and the first of those after it. -/
inductive Reads (lead : UInt8) : List UInt8 → Char → Nat → Prop
  | one (rest : List UInt8) (hLead : lead.toNat < 0x80) :
    Reads lead rest (Char.ofNat lead.toNat) 1
  | two {b : UInt8} (rest : List UInt8) (hSecond : isSecond lead b = true)
    (hLow : 0xc2 ≤ lead.toNat) (hHigh : lead.toNat < 0xe0) :
    Reads lead (b :: rest) (Char.ofNat (lead.toNat % 32 * 64 + payload b)) 2
  | three {b c : UInt8} (rest : List UInt8) (hSecond : isSecond lead b = true)
    (hThird : isContinuation c = true) (hLow : 0xe0 ≤ lead.toNat) (hHigh : lead.toNat < 0xf0) :
    Reads lead (b :: c :: rest)
      (Char.ofNat ((lead.toNat % 16 * 64 + payload b) * 64 + payload c)) 3
  | four {b c d : UInt8} (rest : List UInt8) (hSecond : isSecond lead b = true)
    (hThird : isContinuation c = true) (hFourth : isContinuation d = true)
    (hLow : 0xf0 ≤ lead.toNat) (hHigh : lead.toNat < 0xf5) :
    Reads lead (b :: c :: d :: rest)
      (Char.ofNat (((lead.toNat % 8 * 64 + payload b) * 64 + payload c) * 64 + payload d)) 4

/-- What a step yields as a character was written by one to four octets in its range: each length is
told by its lead, and the second octet excludes long forms and halves of pairs. -/
theorem reads_of_step {lead : UInt8} {rest : List UInt8} {c : Char} {width : Nat}
    (h : step lead rest = .char c width) : Reads lead rest c width := by
  unfold step at h
  split at h
  · next hOne =>
    cases h
    exact .one rest (UInt8.lt_iff_toNat_lt.mp hOne)
  · split at h
    · cases h
    · next hStart =>
      simp only [UInt8.lt_iff_toNat_lt, UInt8.le_iff_toNat_le, UInt8.reduceToNat,
        Bool.or_eq_true, decide_eq_true_eq, not_or, not_lt, not_le] at hStart
      obtain ⟨hLow, hHigh⟩ := hStart
      split at h
      · cases h
      · next b rest =>
        split at h
        · cases h
        · next hSecond =>
          rw [Bool.not_eq_true, Bool.not_eq_false'] at hSecond
          split at h
          · next hTwo =>
            cases h
            exact .two rest hSecond hLow (UInt8.lt_iff_toNat_lt.mp hTwo)
          · next hTwo =>
            have hTwo : 0xe0 ≤ lead.toNat := Nat.not_lt.mp (UInt8.lt_iff_toNat_lt.not.mp hTwo)
            split at h
            · cases h
            · next c rest =>
              split at h
              · cases h
              · next hThird =>
                rw [Bool.not_eq_true, Bool.not_eq_false'] at hThird
                split at h
                · next hThree =>
                  cases h
                  exact .three rest hSecond hThird hTwo (UInt8.lt_iff_toNat_lt.mp hThree)
                · next hThree =>
                  have hThree : 0xf0 ≤ lead.toNat :=
                    Nat.not_lt.mp (UInt8.lt_iff_toNat_lt.not.mp hThree)
                  split at h
                  · cases h
                  · next d rest =>
                    split at h
                    · cases h
                    · next hFourth =>
                      rw [Bool.not_eq_true, Bool.not_eq_false'] at hFourth
                      cases h
                      exact .four rest hSecond hThird hFourth hThree hHigh

theorem Reads.width_ne_zero {lead : UInt8} {rest : List UInt8} {c : Char} {width : Nat}
    (h : Reads lead rest c width) : width ≠ 0 := by
  cases h <;> decide

/-- A follower is told by its six bits. -/
theorem follower_payload {b : UInt8} (h : isContinuation b = true) {n : Nat}
    (hn : n % 64 = payload b) : follower n = b := by
  simp only [isContinuation, UInt8.le_iff_toNat_le, UInt8.lt_iff_toNat_lt, UInt8.reduceToNat,
    Bool.and_eq_true, decide_eq_true_eq] at h
  rw [payload] at hn
  rw [← UInt8.toNat_inj, toNat_follower]
  omega

/-- A valid code is kept by its character. -/
theorem toNat_ofNat_of_isValid {n : Nat} (h : n < 0xd800 ∨ (0xdfff < n ∧ n < 0x110000)) :
    (Char.ofNat n).toNat = n := by
  have hValid : n.isValidChar := h
  rw [Char.ofNat, dif_pos hValid]
  rfl

theorem ofNat_eq {n : Nat} {b : UInt8} (h : n = b.toNat) : UInt8.ofNat n = b := by
  rw [h]
  exact UInt8.ofNat_toNat

/-- The bounds of a second octet in numbers. -/
theorem bounds_of_isSecond {lead b : UInt8} (h : isSecond lead b = true) :
    (lead.toNat = 0xe0 → 32 ≤ payload b) ∧ (lead.toNat = 0xed → payload b < 32) ∧
      (lead.toNat = 0xf0 → 16 ≤ payload b) ∧ (lead.toNat = 0xf4 → payload b < 16) ∧
      isContinuation b = true := by
  simp only [isSecond, isContinuation, UInt8.le_iff_toNat_le, UInt8.lt_iff_toNat_lt,
    ← UInt8.toNat_inj, UInt8.reduceToNat, Bool.and_eq_true, Bool.not_eq_true', Bool.or_eq_false_iff,
    Bool.and_eq_false_iff, beq_eq_false_iff_ne, decide_eq_false_iff_not, decide_eq_true_eq,
    ne_eq, payload] at h ⊢
  omega

theorem payload_lt (b : UInt8) : payload b < 64 :=
  Nat.mod_lt b.toNat (by decide)

/-- What is read as a character is what is written for it. -/
theorem Reads.utf8EncodeChar_eq {lead : UInt8} {rest : List UInt8} {c : Char} {width : Nat}
    (h : Reads lead rest c width) :
    String.utf8EncodeChar c ++ rest.drop (width - 1) = lead :: rest := by
  rw [Utf8.utf8EncodeChar_eq]
  cases h with
  | one rest hLead =>
    rw [toNat_ofNat_of_isValid (by omega), if_pos (by omega), UInt8.ofNat_toNat]
    rfl
  | @two b rest hSecond hLow hHigh =>
    have hNext := (bounds_of_isSecond hSecond).2.2.2.2
    have hB := payload_lt b
    rw [toNat_ofNat_of_isValid (by omega), if_neg (by omega), if_pos (by omega),
      ofNat_eq (b := lead) (by omega), follower_payload hNext (by omega)]
    rfl
  | @three b c rest hSecond hThird hLow hHigh =>
    obtain ⟨hE0, hEd, -, -, hNext⟩ := bounds_of_isSecond hSecond
    have hB := payload_lt b
    have hC := payload_lt c
    rw [toNat_ofNat_of_isValid (by omega), if_neg (by omega), if_neg (by omega),
      if_pos (by omega), ofNat_eq (b := lead) (by omega), follower_payload hNext (by omega),
      follower_payload hThird (by omega)]
    rfl
  | @four b c d rest hSecond hThird hFourth hLow hHigh =>
    obtain ⟨-, -, hF0, hF4, hNext⟩ := bounds_of_isSecond hSecond
    have hB := payload_lt b
    have hC := payload_lt c
    have hD := payload_lt d
    rw [toNat_ofNat_of_isValid (by omega), if_neg (by omega), if_neg (by omega),
      if_neg (by omega), ofNat_eq (b := lead) (by omega), follower_payload hNext (by omega),
      follower_payload hThird (by omega), follower_payload hFourth (by omega)]
    rfl

-- ---------------------------------------------------------------------------
-- Decoding from the front
-- ---------------------------------------------------------------------------

/-- A fault that lies further on. -/
def Fault.moved (n : Nat) (fault : Fault) : Fault :=
  { fault with position := fault.position + n }

/-- Octets are taken from the front, one character at a time, up to a fault. -/
theorem octets_induction {P : List UInt8 → Prop} (nil : P [])
    (char : ∀ lead rest c width, step lead rest = .char c width → P (rest.drop (width - 1)) →
      P (lead :: rest))
    (fault : ∀ lead rest width reason, step lead rest = .fault width reason → P (lead :: rest))
    (data : List UInt8) : P data := by
  induction hLength : data.length using Nat.strong_induction_on generalizing data with
  | _ n ih =>
    cases data with
    | nil => exact nil
    | cons lead rest =>
      cases hStep : step lead rest with
      | fault width reason => exact fault lead rest width reason hStep
      | char c width =>
        refine char lead rest c width hStep (ih _ ?_ _ rfl)
        rw [List.length_cons] at hLength
        rw [List.length_drop]
        omega

/-- What was decoded before is put in front, and a fault is moved by as much. -/
theorem decodeFrom_eq (position : Nat) (before : List Char) (data : List UInt8) :
    decodeFrom position before data =
      (before.reverse ++ (decode data).1, (decode data).2.map (Fault.moved position)) := by
  induction data using octets_induction generalizing position before with
  | nil =>
    rw [decode, decodeFrom, decodeFrom]
    simp
  | fault lead rest width reason hStep =>
    rw [decode, decodeFrom, decodeFrom, hStep]
    simp [Fault.moved]
  | char lead rest c width hStep ih =>
    rw [decode, decodeFrom, decodeFrom, hStep]
    dsimp only
    rw [ih, ih]
    cases (decode (rest.drop (width - 1))).2 with
    | none => simp
    | some fault => simp [Fault.moved]; omega

theorem decode_nil : decode [] = ([], none) := by
  rw [decode, decodeFrom, List.reverse_nil]

/-- A character at the start is decoded, and then what follows its octets. -/
theorem decode_cons_char {lead : UInt8} {rest : List UInt8} {c : Char} {width : Nat}
    (hStep : step lead rest = .char c width) :
    decode (lead :: rest) =
      (c :: (decode (rest.drop (width - 1))).1,
        (decode (rest.drop (width - 1))).2.map (Fault.moved width)) := by
  rw [decode, decodeFrom, hStep]
  dsimp only
  rw [decodeFrom_eq, Nat.zero_add]
  rfl

/-- A fault at the start leaves nothing decoded. -/
theorem decode_cons_fault {lead : UInt8} {rest : List UInt8} {width : Nat} {reason : Reason}
    (hStep : step lead rest = .fault width reason) :
    decode (lead :: rest) = ([], some ⟨0, (lead :: rest).take width, reason⟩) := by
  rw [decode, decodeFrom, hStep]
  rfl

/-- Octets that are decoded without a fault are those of the characters. -/
theorem eq_flatMap_of_decode {data : List UInt8} (h : (decode data).2 = none) :
    data = (decode data).1.flatMap String.utf8EncodeChar := by
  induction data using octets_induction with
  | nil =>
    rw [decode_nil]
    rfl
  | fault lead rest width reason hStep =>
    rw [decode_cons_fault hStep] at h
    cases h
  | char lead rest c width hStep ih =>
    rw [decode_cons_char hStep, Option.map_eq_none_iff] at h
    rw [decode_cons_char hStep, List.flatMap_cons, ← ih h]
    exact (reads_of_step hStep).utf8EncodeChar_eq.symm

/-- Octets are decoded without a fault exactly when they are those of a text. -/
theorem decode_eq_none_iff {data : List UInt8} :
    (decode data).2 = none ↔ ∃ text : String, data = text.toUTF8.data.toList := by
  constructor
  · intro h
    refine ⟨String.ofList (decode data).1, ?_⟩
    rw [octets_toUTF8, String.toList_ofList]
    exact eq_flatMap_of_decode h
  · rintro ⟨text, rfl⟩
    rw [decode_toUTF8]

end BuildDigest.Text.Utf8
