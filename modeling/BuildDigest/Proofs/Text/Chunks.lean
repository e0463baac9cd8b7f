import BuildDigest.Proofs.Text.Utf8

/-!
# A file read in chunks

Decoding a file chunk by chunk comes to the same as decoding it whole, as far as this can
be: it meets a fault exactly when there is one, and the characters that it yields before
the chunk with the fault are the first characters of the file. A sequence that a chunk
cuts off is read with the next chunk, and a fault within a chunk is one for good, whatever
follows.

Main statements.
* `decode_append` — octets that at most end inside a sequence, and what follows them.
* `decode_append_of_fault` — octets with a fault inside, and what follows them.
* `decodeChunks_agrees` — chunk by chunk, and whole.
-/

namespace BuildDigest.Text.Utf8

variable {data : List UInt8}

/-- The octets that are not yet characters: those from a fault on. -/
def pending (data : List UInt8) : List UInt8 :=
  match (decode data).2 with
  | none => []
  | some fault => data.drop fault.position

-- ---------------------------------------------------------------------------
-- One step, and what follows
-- ---------------------------------------------------------------------------

/-- What is read as a character is read so whatever follows. -/
theorem step_char_append {lead : UInt8} {rest : List UInt8} {c : Char} {width : Nat}
    (hStep : step lead rest = .char c width) (more : List UInt8) :
    step lead (rest ++ more) = .char c width ∧
      (rest ++ more).drop (width - 1) = rest.drop (width - 1) ++ more := by
  have hOctets := (reads_of_step hStep).utf8EncodeChar_eq
  obtain ⟨lead', inner, hChar, hSame⟩ := step_utf8EncodeChar c (rest.drop (width - 1))
  obtain ⟨_, _, hChar', hLonger⟩ := step_utf8EncodeChar c (rest.drop (width - 1) ++ more)
  rw [hChar] at hChar' hOctets
  obtain ⟨rfl, rfl⟩ := List.cons.inj hChar'
  obtain ⟨rfl, hRest⟩ := List.cons.inj hOctets
  have hRest : inner ++ rest.drop (width - 1) = rest := hRest
  rw [hRest, hStep] at hSame
  obtain ⟨-, hWidth⟩ := Step.char.inj hSame
  constructor
  · rw [← List.append_assoc, hRest, ← hWidth] at hLonger
    exact hLonger
  · have hLength : width - 1 ≤ rest.length := by
      have := congrArg List.length hRest
      rw [List.length_append] at this
      omega
    exact List.drop_append_of_le_length hLength

/-- Why a second octet is at fault does not change with what follows, once it is more than that the
octets end. -/
theorem secondReason_append {lead b : UInt8} {rest : List UInt8}
    (hFinal : (secondReason lead b rest.isEmpty).isPending = false) (more : List UInt8) :
    secondReason lead b (rest ++ more).isEmpty = secondReason lead b rest.isEmpty := by
  cases rest with
  | cons _ _ => rfl
  | nil =>
    unfold secondReason at hFinal ⊢
    split at hFinal
    · cases hFinal
    · next hOther =>
      simp only [List.isEmpty_nil, Bool.and_true] at hOther
      simp [hOther]

/-- A fault that no further octets can mend is the same whatever follows. -/
theorem step_fault_append {lead : UInt8} {rest : List UInt8} {width : Nat} {reason : Reason}
    (hStep : step lead rest = .fault width reason) (hFinal : reason.isPending = false)
    (more : List UInt8) : step lead (rest ++ more) = .fault width reason := by
  unfold step at hStep
  split at hStep
  · cases hStep
  · next hOne =>
    split at hStep
    · next hStart =>
      rw [step.eq_def, if_neg hOne, if_pos hStart]
      exact hStep
    · next hStart =>
      split at hStep
      · cases hStep
        cases hFinal
      · next b rest =>
        rw [List.cons_append, step.eq_def, if_neg hOne, if_neg hStart]
        dsimp only
        split at hStep
        · next hSecond =>
          cases hStep
          rw [if_pos hSecond, secondReason_append hFinal]
        · next hSecond =>
          rw [if_neg hSecond]
          split at hStep
          · cases hStep
          · next hTwo =>
            rw [if_neg hTwo]
            split at hStep
            · cases hStep
              cases hFinal
            · next c rest =>
              rw [List.cons_append]
              dsimp only
              split at hStep
              · next hThird =>
                rw [if_pos hThird]
                exact hStep
              · next hThird =>
                rw [if_neg hThird]
                split at hStep
                · cases hStep
                · next hThree =>
                  rw [if_neg hThree]
                  split at hStep
                  · cases hStep
                    cases hFinal
                  · next d rest =>
                    rw [List.cons_append]
                    exact hStep

-- ---------------------------------------------------------------------------
-- Some octets, and what follows
-- ---------------------------------------------------------------------------

/-- What is pending when octets are at fault starts where the fault is. -/
theorem pending_of_fault {fault : Fault} (h : (decode data).2 = some fault) :
    pending data = data.drop fault.position := by
  rw [pending, h]

theorem pending_of_none (h : (decode data).2 = none) : pending data = [] := by
  rw [pending, h]

/-- What is not yet characters is the same behind a character. -/
theorem pending_cons_char {lead : UInt8} {rest : List UInt8} {c : Char} {width : Nat}
    (hStep : step lead rest = .char c width) :
    pending (lead :: rest) = pending (rest.drop (width - 1)) := by
  have hDecode := decode_cons_char hStep
  cases hLater : (decode (rest.drop (width - 1))).2 with
  | none =>
    rw [hLater] at hDecode
    rw [pending_of_none hLater, pending_of_none (by rw [hDecode]; rfl)]
  | some fault =>
    rw [hLater] at hDecode
    have hHere : (decode (lead :: rest)).2 = some (fault.moved width) := by rw [hDecode]; rfl
    rw [pending_of_fault hLater, pending_of_fault hHere, List.drop_drop]
    obtain ⟨n, rfl⟩ := Nat.exists_eq_succ_of_ne_zero (reads_of_step hStep).width_ne_zero
    show (lead :: rest).drop (fault.position + n + 1) = _
    rw [List.drop_succ_cons, Nat.succ_sub_one, Nat.add_comm]

/-- Octets that at most end inside a sequence yield their characters whatever follows; the
sequence is read with what follows. -/
theorem decode_append (more : List UInt8)
    (hPending : ∀ fault, (decode data).2 = some fault → fault.reason.isPending = true) :
    (decode (data ++ more)).1 = (decode data).1 ++ (decode (pending data ++ more)).1 ∧
      (decode (data ++ more)).2.isSome = (decode (pending data ++ more)).2.isSome := by
  induction data using octets_induction with
  | nil =>
    rw [pending_of_none (by rw [decode_nil]), decode_nil]
    exact ⟨rfl, rfl⟩
  | fault lead rest width reason hStep =>
    have hDecode := decode_cons_fault hStep
    rw [pending_of_fault (by rw [hDecode]), hDecode]
    exact ⟨rfl, rfl⟩
  | char lead rest c width hStep ih =>
    obtain ⟨hAgain, hDrop⟩ := step_char_append hStep more
    have hDecode := decode_cons_char hAgain
    rw [hDrop] at hDecode
    have hLater : ∀ fault, (decode (rest.drop (width - 1))).2 = some fault →
        fault.reason.isPending = true := by
      intro fault hFault
      refine hPending (fault.moved width) ?_
      rw [decode_cons_char hStep, hFault]
      rfl
    obtain ⟨hChars, hFault⟩ := ih hLater
    rw [List.cons_append, hDecode, pending_cons_char hStep, decode_cons_char hStep]
    constructor
    · rw [hChars]
      rfl
    · rw [Option.isSome_map, hFault]

/-- Octets with a fault inside have it whatever follows. -/
theorem decode_append_of_fault (more : List UInt8) {fault : Fault}
    (hFault : (decode data).2 = some fault) (hFinal : fault.reason.isPending = false) :
    (decode (data ++ more)).2.isSome = true := by
  induction data using octets_induction generalizing fault with
  | nil =>
    rw [decode_nil] at hFault
    cases hFault
  | fault lead rest width reason hStep =>
    rw [decode_cons_fault hStep] at hFault
    cases hFault
    rw [List.cons_append, decode_cons_fault (step_fault_append hStep hFinal more)]
    rfl
  | char lead rest c width hStep ih =>
    rw [decode_cons_char hStep] at hFault
    obtain ⟨later, hLater, rfl⟩ := Option.map_eq_some_iff.mp hFault
    obtain ⟨hAgain, hDrop⟩ := step_char_append hStep more
    rw [List.cons_append, decode_cons_char hAgain, hDrop, Option.isSome_map]
    exact ih hLater hFinal

-- ---------------------------------------------------------------------------
-- Chunk by chunk
-- ---------------------------------------------------------------------------

/-- A chunk without a fault inside, and the rest of the file with what it holds back. -/
theorem agrees_of_chunk {before cs : List Char} {octets more : List UInt8}
    {later : List Char × Option Fault} (hOctets : octets = data ++ more)
    (hChars : (decode data).1 = cs)
    (hPending : ∀ fault, (decode data).2 = some fault → fault.reason.isPending = true)
    (hLater : later.2.isSome = (decode (pending data ++ more)).2.isSome ∧
      later.1 <+: (before ++ cs) ++ (decode (pending data ++ more)).1) :
    later.2.isSome = (decode octets).2.isSome ∧ later.1 <+: before ++ (decode octets).1 := by
  obtain ⟨hDecode, hFault⟩ := decode_append more hPending
  rw [hOctets, hFault, hDecode, hChars, ← List.append_assoc]
  exact hLater

/-- Chunk by chunk a fault is met exactly when there is one, and the characters before it are the
first characters of the file. -/
theorem decodeChunks_agrees (before : List Char) (held octets : List UInt8) :
    (decodeChunks before held octets).2.isSome = (decode (held ++ octets)).2.isSome ∧
      (decodeChunks before held octets).1 <+: before ++ (decode (held ++ octets)).1 := by
  have hCut (held octets : List UInt8) : held ++ octets =
      (held ++ octets.take chunkSize) ++ octets.drop chunkSize := by
    rw [List.append_assoc, List.take_append_drop]
  induction before, held, octets using decodeChunks.induct with
  | case1 before held =>
    rw [decodeChunks, List.append_nil]
    exact ⟨rfl, List.prefix_append before _⟩
  | case2 before held b rest data cs hDecode ih =>
    have hNone : (decode data).2 = none := by rw [hDecode]
    rw [decodeChunks, hDecode]
    refine agrees_of_chunk (hCut held (b :: rest)) (by rw [hDecode]) ?_ ?_
    · intro fault hFault
      rw [hNone] at hFault
      cases hFault
    · rw [pending_of_none hNone]
      exact ih
  | case3 before held b rest data cs fault hDecode hPending ih =>
    have hFault : (decode data).2 = some fault := by rw [hDecode]
    rw [decodeChunks, hDecode]
    dsimp only
    rw [if_pos hPending]
    refine agrees_of_chunk (hCut held (b :: rest)) (by rw [hDecode]) ?_ ?_
    · intro other hOther
      rw [hFault] at hOther
      rw [← Option.some.inj hOther]
      exact hPending
    · rw [pending_of_fault hFault]
      exact ih
  | case4 before held b rest data cs fault hDecode hFinal =>
    have hFault : (decode data).2 = some fault := by rw [hDecode]
    rw [decodeChunks, hDecode]
    dsimp only
    rw [if_neg hFinal, hCut held (b :: rest),
      decode_append_of_fault _ hFault (Bool.not_eq_true _ ▸ hFinal)]
    exact ⟨rfl, List.prefix_append before _⟩

end BuildDigest.Text.Utf8
