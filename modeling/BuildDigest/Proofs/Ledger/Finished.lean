import BuildDigest.Proofs.Ledger.Blocks
import BuildDigest.Proofs.Ledger.Report

/-!
# Finished entries

An entry is written only while its project is open, and a project finishes when it
is closed. So a finished entry is never written again: more events add entries and
finish others, and every moniker that is reported stays reported. A build that comes
later may spoil the success of its moniker and cannot restore it.

* `Ledger.Pending` — the open projects have entries of their own, which are not finished.
* `Ledger.Pending.mem_run` — a finished entry stays.
* `Analysis.report_run` — what is reported after more events.
-/

namespace BuildDigest

namespace Ledger

variable {l : Ledger} {e : Event} {k : Nat} {b : Entry}

/-- The entries of the open projects. -/
def openEntries (l : Ledger) : List Nat :=
  l.frames.filterMap Frame.entry?

/-- No entry is open twice, and what is open is not finished. -/
structure Pending (l : Ledger) : Prop where
  nodup : l.openEntries.Nodup
  unfinished : ∀ k ∈ l.openEntries, ∃ b, l.entries[k]? = some b ∧ b.outcome = none

-- ---------------------------------------------------------------------------
-- What is open after an event
-- ---------------------------------------------------------------------------

/-- The innermost open project is open. -/
theorem mem_openEntries_of_innermost (hk : innermost l.frames = some k) : k ∈ l.openEntries := by
  obtain ⟨before, frame, after, hFrames, hEntry, _⟩ := List.findSome?_eq_some_iff.mp hk
  rw [openEntries, List.mem_filterMap]
  refine ⟨frame, ?_, hEntry⟩
  rw [hFrames]
  exact List.mem_append_right before (List.mem_cons_self ..)

/-- No report changes how an entry finished. -/
theorem outcome_amendment (frames : List Frame) (e : Event) (b : Entry) :
    (amendment frames e b).outcome = b.outcome := by
  unfold amendment
  cases e.kind <;> first | rfl | (cases e.isCommandLine <;> rfl)

/-- A project that opens has the next entry. -/
theorem openEntries_of_opens (l : Ledger) (h : e.kind.effect = .opens) :
    (l.step e).openEntries = l.openEntries ∧ opened e = [] ∨
      (l.step e).openEntries = l.entries.length :: l.openEntries ∧ opened e = [.ofEvent e] := by
  rw [step_of_opens h]
  unfold openEntries opening opened
  cases hKind : e.kind with
  | projectStarted => exact Or.inr ⟨rfl, rfl⟩
  | targetStarted | taskStarted => exact Or.inl ⟨rfl, rfl⟩
  | _ => rw [hKind] at h; exact absurd h (by decide)

theorem openEntries_leave (l : Ledger) (succeeded : Bool) :
    (l.leave succeeded).openEntries = l.frames.tail.filterMap Frame.entry? := by
  rw [openEntries, frames_leave]

theorem openEntries_amend (l : Ledger) (change : Entry → Entry) :
    (l.amend change).openEntries = l.openEntries := by
  rw [openEntries, frames_amend, openEntries]

/-- Closing opens no entry. -/
theorem sublist_openEntries_leave (l : Ledger) (succeeded : Bool) :
    (l.leave succeeded).openEntries.Sublist l.openEntries := by
  rw [openEntries_leave]
  exact (List.tail_sublist l.frames).filterMap _

-- ---------------------------------------------------------------------------
-- Entries that are not written
-- ---------------------------------------------------------------------------

/-- The entry that finishes is the one of the innermost frame. -/
theorem getElem?_leave (l : Ledger) (succeeded : Bool)
    (hk : ∀ frame rest, l.frames = frame :: rest → frame.entry? ≠ some k) :
    (l.leave succeeded).entries[k]? = l.entries[k]? := by
  unfold leave
  split
  · rfl
  · next frame rest hFrames =>
    split
    · next j hj =>
      have hne : j ≠ k := by
        rintro rfl
        exact hk frame rest hFrames hj
      exact List.getElem?_modify_ne _ _ hne
    · rfl

/-- A report on the innermost open project changes no entry that is not open. -/
theorem getElem?_amend (l : Ledger) (change : Entry → Entry) (hk : k ∉ l.openEntries) :
    (l.amend change).entries[k]? = l.entries[k]? := by
  unfold amend
  split
  · next j hj =>
    have hne : j ≠ k := by
      rintro rfl
      exact hk (mem_openEntries_of_innermost hj)
    exact List.getElem?_modify_ne _ _ hne
  · rfl

-- ---------------------------------------------------------------------------
-- One event
-- ---------------------------------------------------------------------------

/-- An open project has an entry. -/
theorem Pending.lt_length (h : l.Pending) (hk : k ∈ l.openEntries) : k < l.entries.length := by
  obtain ⟨b, hb, _⟩ := h.unfinished k hk
  exact (List.getElem?_eq_some_iff.mp hb).1

/-- A part that opens leaves what is open pending, and a project that opens has an entry of its
own. -/
theorem Pending.opens (h : l.Pending) (hEffect : e.kind.effect = .opens) :
    (l.step e).Pending := by
  have hKept : ∀ k ∈ l.openEntries, ∃ b, (l.step e).entries[k]? = some b ∧ b.outcome = none := by
    intro k hk
    rw [step_of_opens hEffect, List.getElem?_append_left (h.lt_length hk)]
    exact h.unfinished k hk
  rcases openEntries_of_opens l hEffect with ⟨hOpen, -⟩ | ⟨hOpen, hOpened⟩
  · exact ⟨hOpen ▸ h.nodup, by rwa [hOpen]⟩
  · refine ⟨?_, ?_⟩
    · rw [hOpen, List.nodup_cons]
      exact ⟨fun hMem => Nat.lt_irrefl _ (h.lt_length hMem), h.nodup⟩
    · rw [hOpen, List.forall_mem_cons]
      refine ⟨⟨.ofEvent e, ?_, rfl⟩, hKept⟩
      rw [step_of_opens hEffect, hOpened]
      exact List.getElem?_concat_length

/-- Closing leaves what stays open pending: the entry that finishes was open once only. -/
theorem Pending.leave (h : l.Pending) (succeeded : Bool) : (l.leave succeeded).Pending where
  nodup := h.nodup.sublist (l.sublist_openEntries_leave succeeded)
  unfinished k hk := by
    rw [getElem?_leave l succeeded]
    · exact h.unfinished k ((l.sublist_openEntries_leave succeeded).subset hk)
    · -- the entry that finishes is not open any more, since none is open twice
      intro frame rest hFrames hEntry
      rw [openEntries_leave, hFrames, List.tail_cons] at hk
      have hNodup := h.nodup
      rw [openEntries, hFrames, List.filterMap_cons, hEntry] at hNodup
      exact (List.nodup_cons.mp hNodup).1 hk

/-- A report leaves what is open pending. -/
theorem Pending.amend (h : l.Pending) {change : Entry → Entry}
    (hOutcome : ∀ b, (change b).outcome = b.outcome) : (l.amend change).Pending where
  nodup := by
    rw [openEntries_amend]
    exact h.nodup
  unfinished k hk := by
    rw [openEntries_amend] at hk
    obtain ⟨b, hb, hNone⟩ := h.unfinished k hk
    unfold Ledger.amend
    split
    · next j _ =>
      rw [List.getElem?_modify, hb]
      by_cases hjk : j = k
      · exact ⟨_, congrArg some (if_pos hjk), (hOutcome b).trans hNone⟩
      · exact ⟨b, congrArg some (if_neg hjk), hNone⟩
    · exact ⟨b, hb, hNone⟩

/-- An event leaves what is open pending. -/
theorem Pending.step (h : l.Pending) (e : Event) : (l.step e).Pending := by
  cases hEffect : e.kind.effect with
  | opens => exact h.opens hEffect
  | closes =>
    rw [step_of_closes hEffect]
    exact h.leave e.succeeded.holds
  | ends =>
    rw [step_of_ends hEffect]
    exact ⟨List.nodup_nil, nofun⟩
  | stays =>
    rw [step_of_stays hEffect]
    exact h.amend (outcome_amendment l.frames e)

/-- An entry that is not open is left alone, and stays closed. -/
theorem step_of_not_open (hk : k < l.entries.length) (hClosed : k ∉ l.openEntries) (e : Event) :
    (l.step e).entries[k]? = l.entries[k]? ∧ k ∉ (l.step e).openEntries := by
  cases hEffect : e.kind.effect with
  | opens =>
    refine ⟨?_, ?_⟩
    · rw [step_of_opens hEffect, List.getElem?_append_left hk]
    · rcases openEntries_of_opens l hEffect with ⟨hOpen, -⟩ | ⟨hOpen, -⟩
      · rwa [hOpen]
      · rw [hOpen, List.mem_cons, not_or]
        exact ⟨Nat.ne_of_lt hk, hClosed⟩
  | closes =>
    rw [step_of_closes hEffect]
    refine ⟨getElem?_leave l _ fun frame rest hFrames hEntry => hClosed ?_,
      fun hMem => hClosed ((l.sublist_openEntries_leave _).subset hMem)⟩
    rw [openEntries, hFrames, List.filterMap_cons, hEntry]
    exact List.mem_cons_self ..
  | ends =>
    rw [step_of_ends hEffect]
    exact ⟨rfl, nofun⟩
  | stays =>
    rw [step_of_stays hEffect, openEntries_amend]
    exact ⟨getElem?_amend l _ hClosed, hClosed⟩

-- ---------------------------------------------------------------------------
-- Events in order
-- ---------------------------------------------------------------------------

theorem pending_empty : ({} : Ledger).Pending :=
  ⟨List.nodup_nil, nofun⟩

theorem Pending.run (h : l.Pending) (events : List Event) : (l.run events).Pending := by
  induction events generalizing l with
  | nil => exact h
  | cons e rest ih => exact ih (h.step e)

/-- An entry that is not open is never written again. -/
theorem run_of_not_open (hk : k < l.entries.length) (hClosed : k ∉ l.openEntries)
    (events : List Event) : (l.run events).entries[k]? = l.entries[k]? := by
  induction events generalizing l with
  | nil => rfl
  | cons e rest ih =>
    obtain ⟨hSame, hClosed'⟩ := step_of_not_open hk hClosed e
    have hk' : k < (l.step e).entries.length := by
      rw [List.getElem?_eq_getElem hk] at hSame
      exact (List.getElem?_eq_some_iff.mp hSame).1
    exact (ih hk' hClosed').trans hSame

/-- A finished entry is there after all later events, as it was. -/
theorem Pending.mem_run (h : l.Pending) (hb : b ∈ l.entries) (hFinished : b.outcome.isSome = true)
    (events : List Event) : b ∈ (l.run events).entries := by
  obtain ⟨k, hk, hkb⟩ := List.mem_iff_getElem.mp hb
  have hHere : l.entries[k]? = some b := hkb ▸ List.getElem?_eq_getElem hk
  have hClosed : k ∉ l.openEntries := by
    intro hOpen
    obtain ⟨b', hb', hOutcome⟩ := h.unfinished k hOpen
    rw [hHere] at hb'
    obtain rfl := Option.some.inj hb'
    rw [hOutcome] at hFinished
    cases hFinished
  exact List.mem_of_getElem? ((run_of_not_open hk hClosed events).trans hHere)

end Ledger

namespace Analysis

open Ledger (Entry)

variable {q : Analysis} {l : Ledger}

/-- A build that counts for a moniker counts for it after any events. -/
theorem mem_group_run (h : l.Pending) (events : List Event) {moniker : String} {b : Entry}
    (hb : b ∈ q.group l.entries moniker) : b ∈ q.group (l.run events).entries moniker := by
  rw [group, List.mem_filter] at hb ⊢
  obtain ⟨hMem, hWanted⟩ := hb
  refine ⟨h.mem_run hMem ?_ events, hWanted⟩
  rw [Bool.and_eq_true, counts, Bool.and_eq_true, Bool.and_eq_true] at hWanted
  exact hWanted.1.1.2

/-- What holds of all builds of a moniker held of those that had finished before. -/
theorem all_group_run (h : l.Pending) (events : List Event) {moniker : String}
    {P : Entry → Bool} (hAll : (q.group (l.run events).entries moniker).all P = true) :
    (q.group l.entries moniker).all P = true := by
  rw [List.all_eq_true] at hAll ⊢
  exact fun b hb => hAll b (mem_group_run h events hb)

/-- A moniker that is reported is reported after more events too, and its builds succeed together
only if they did before. -/
theorem report_run (h : l.Pending) (events : List Event) {o : Observation}
    (ho : o ∈ q.report l.entries) :
    (∃ o' ∈ q.report (l.run events).entries, o'.moniker = o.moniker) ∧
      ∀ o' ∈ q.report (l.run events).entries, o'.moniker = o.moniker →
        o'.succeeded = o.succeeded ∨
          o.succeeded = .bool true ∧ o'.succeeded = .bool false := by
  obtain ⟨moniker, hMoniker, rfl⟩ := List.mem_map.mp ho
  refine ⟨⟨_, List.mem_map.mpr ⟨moniker, ?_, rfl⟩, rfl⟩, ?_⟩
  · rw [mem_monikers] at hMoniker ⊢
    obtain ⟨b, hb⟩ := List.exists_mem_of_ne_nil _ hMoniker
    exact List.ne_nil_of_mem (mem_group_run h events hb)
  · rintro o' ho' hSame
    obtain ⟨moniker', -, rfl⟩ := List.mem_map.mp ho'
    obtain rfl : moniker' = moniker := Value.text.inj hSame
    show Value.bool _ = Value.bool _ ∨ Value.bool _ = .bool true ∧ Value.bool _ = .bool false
    cases hLater : (q.group (l.run events).entries moniker').all (·.outcome == some true) with
    | true => exact Or.inl (by rw [all_group_run h events hLater])
    | false =>
      cases hBefore : (q.group l.entries moniker').all (·.outcome == some true) with
      | true => exact Or.inr ⟨rfl, rfl⟩
      | false => exact Or.inl rfl

end Analysis

end BuildDigest
