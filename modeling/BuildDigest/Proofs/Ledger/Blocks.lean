import BuildDigest.Proofs.Ledger.Basic

/-!
# Blocks of events

An event opens a part of the build, closes the innermost one, ends the build or
leaves alone what is open. The events of one build of a project are a block that
opens a project and closes it with its last event.

* `Event.Kind.effect` — what events of a kind do to what is open.
* `Event.isBuild` — the blocks that are one build of a project.
* `Event.foldl_of_closesAll` — the induction over such a block.
* `Ledger.step_of_opens`, `Ledger.step_of_closes`, `Ledger.step_of_stays` — one event by its effect.
* `Ledger.files_run` — the files of entries are those of the projects that were started.
-/

namespace BuildDigest

namespace Event

/-- What an event does to the open parts of a build. -/
inductive Effect
  | opens
  | closes
  | stays
  | ends
  deriving DecidableEq, Repr

def Kind.effect : Kind → Effect
  | .projectStarted | .targetStarted | .taskStarted => .opens
  | .projectFinished | .targetFinished | .taskFinished => .closes
  | .buildFinished => .ends
  | .buildStarted | .message | .warning | .error | .custom | .status => .stays

/-- Whether events close `depth` open parts and then, with the last event, one more. They close
nothing else that was open before, and do not end the build. -/
def closesAll : Nat → List Event → Bool
  | _, [] => false
  | depth, e :: rest =>
    match e.kind.effect, depth with
    | .opens, depth => closesAll (depth + 1) rest
    | .closes, 0 => rest.isEmpty
    | .closes, depth + 1 => closesAll depth rest
    | .stays, depth => closesAll depth rest
    | .ends, _ => false

/-- Whether events are one build of a project: the first starts it, the last closes it. -/
def isBuild : List Event → Bool
  | [] => false
  | first :: rest => first.kind == .projectStarted && closesAll 0 rest

/-- What holds inside one open part, at every depth, comes to hold after it is closed. -/
theorem foldl_of_closesAll {σ : Type} (inside : Nat → σ → Prop) (after : σ → Prop)
    (step : σ → Event → σ)
    (hOpens : ∀ depth s e, inside depth s → e.kind.effect = .opens → inside (depth + 1) (step s e))
    (hCloses : ∀ depth s e, inside (depth + 1) s → e.kind.effect = .closes → inside depth (step s e))
    (hStays : ∀ depth s e, inside depth s → e.kind.effect = .stays → inside depth (step s e))
    (hLast : ∀ s e, inside 0 s → e.kind.effect = .closes → after (step s e))
    {events : List Event} {depth : Nat} {s : σ} (hEvents : closesAll depth events = true)
    (hInside : inside depth s) : after (events.foldl step s) := by
  -- `depth` counts what is open above the outermost part
  induction events generalizing depth s with
  | nil => cases hEvents
  | cons e rest ih =>
    unfold closesAll at hEvents
    rw [List.foldl_cons]
    cases hEffect : e.kind.effect with
    | opens =>
      simp only [hEffect] at hEvents
      exact ih hEvents (hOpens depth s e hInside hEffect)
    | stays =>
      simp only [hEffect] at hEvents
      exact ih hEvents (hStays depth s e hInside hEffect)
    | ends => simp [hEffect] at hEvents
    | closes =>
      cases depth with
      | succ depth =>
        simp only [hEffect] at hEvents
        exact ih hEvents (hCloses depth s e hInside hEffect)
      | zero =>
        -- nothing is open but the outermost part, so no event is left
        simp only [hEffect, List.isEmpty_iff] at hEvents
        subst hEvents
        exact hLast s e hInside hEffect

/-- A build starts with the start of a project. -/
theorem exists_of_isBuild {block : List Event} (h : isBuild block = true) :
    ∃ first rest, block = first :: rest ∧ first.kind = .projectStarted ∧
      closesAll 0 rest = true := by
  cases block with
  | nil => cases h
  | cons first rest =>
    rw [isBuild, Bool.and_eq_true, beq_iff_eq] at h
    exact ⟨first, rest, rfl, h.1, h.2⟩

/-- Two ledgers are run side by side. -/
theorem foldl_pair {σ τ : Type} (f : σ → Event → σ) (g : τ → Event → τ) (s : σ × τ)
    (events : List Event) :
    events.foldl (fun s e => (f s.1 e, g s.2 e)) s = (events.foldl f s.1, events.foldl g s.2) := by
  induction events generalizing s with
  | nil => rfl
  | cons e rest ih => exact ih _

end Event

namespace Ledger

variable {l : Ledger} {e : Event}

-- ---------------------------------------------------------------------------
-- One event by its effect
-- ---------------------------------------------------------------------------

def opening (count : Nat) (e : Event) : Frame :=
  match e.kind with
  | .targetStarted => .target e.targetName.plain
  | .taskStarted => .task e.taskName.plain
  | _ => .project count

def opened (e : Event) : List Entry :=
  match e.kind with
  | .projectStarted => [.ofEvent e]
  | _ => []

/-- What an event inside open frames adds to an entry. -/
def amendment (frames : List Frame) (e : Event) (b : Entry) : Entry :=
  match e.kind with
  | .message | .warning | .error => if e.isCommandLine then b.addCall (callOf frames e) else b
  | .custom | .status => b.addData e
  | _ => b

/-- What opens a part is a new frame, and a new entry if the part is a project. -/
theorem step_of_opens (h : e.kind.effect = .opens) :
    l.step e =
      { entries := l.entries ++ opened e, frames := opening l.entries.length e :: l.frames } := by
  unfold step opened opening
  cases hKind : e.kind with
  | projectStarted => rfl
  | targetStarted | taskStarted => exact congrArg (Ledger.mk · _) (List.append_nil _).symm
  | _ => rw [hKind] at h; exact absurd h (by decide)

/-- What finishes closes the innermost frame, whatever it says it finishes. -/
theorem step_of_closes (h : e.kind.effect = .closes) : l.step e = l.leave e.succeeded.holds := by
  unfold step
  cases hKind : e.kind with
  | projectFinished | targetFinished | taskFinished => rfl
  | _ => rw [hKind] at h; exact absurd h (by decide)

/-- The end of the build leaves nothing open. -/
theorem step_of_ends (h : e.kind.effect = .ends) : l.step e = { l with frames := [] } := by
  unfold step
  cases hKind : e.kind with
  | buildFinished => rfl
  | _ => rw [hKind] at h; exact absurd h (by decide)

/-- What opens and closes nothing is at most an amendment of the innermost open project. -/
theorem step_of_stays (h : e.kind.effect = .stays) :
    l.step e = l.amend (amendment l.frames e) := by
  unfold step amendment
  cases hKind : e.kind with
  | buildStarted => exact (amend_id l).symm
  | message | warning | error =>
    cases e.isCommandLine with
    | true => rfl
    | false => exact (amend_id l).symm
  | custom | status => rfl
  | _ => rw [hKind] at h; exact absurd h (by decide)

theorem frames_amend (l : Ledger) (f : Entry → Entry) : (l.amend f).frames = l.frames := by
  unfold amend
  split <;> rfl

theorem length_amend (l : Ledger) (f : Entry → Entry) :
    (l.amend f).entries.length = l.entries.length := by
  unfold amend
  split
  · exact List.length_modify ..
  · rfl

/-- Closing takes the innermost frame off the stack. -/
theorem frames_leave (l : Ledger) (succeeded : Bool) :
    (l.leave succeeded).frames = l.frames.tail := by
  unfold leave
  split
  · next hFrames => rw [hFrames, List.tail_nil]
  · next hFrames =>
    rw [hFrames, List.tail_cons]
    split <;> rfl

-- ---------------------------------------------------------------------------
-- Files of entries
-- ---------------------------------------------------------------------------

/-- A change of an entry that keeps its file keeps the files of all entries. -/
theorem map_file_modify (entries : List Entry) (k : Nat) {f : Entry → Entry}
    (hFile : ∀ b, (f b).file = b.file) :
    (entries.modify k f).map (·.file) = entries.map (·.file) := by
  refine List.ext_getElem? fun i => ?_
  rw [List.getElem?_map, List.getElem?_map, List.getElem?_modify]
  cases entries[i]? with
  | none => rfl
  | some b =>
    by_cases hHere : k = i
    · simp [hHere, hFile]
    · simp [hHere]

theorem file_amendment (frames : List Frame) (e : Event) (b : Entry) :
    (amendment frames e b).file = b.file := by
  unfold amendment
  cases e.kind <;> first | rfl | (cases e.isCommandLine <;> rfl)

/-- Closing keeps the files of all entries. -/
theorem files_leave (l : Ledger) (succeeded : Bool) :
    (l.leave succeeded).entries.map (·.file) = l.entries.map (·.file) := by
  unfold leave
  split
  · rfl
  · split
    · exact map_file_modify _ _ fun _ => rfl
    · rfl

/-- Only the start of a project opens an entry. -/
theorem opened_eq_nil (h : e.kind.effect ≠ .opens) : opened e = [] := by
  unfold opened
  cases hKind : e.kind with
  | projectStarted => exact absurd (by rw [hKind]; rfl) h
  | _ => rfl

/-- An event adds the file of the project that it starts, if it starts one. -/
theorem files_step (l : Ledger) (e : Event) :
    (l.step e).entries.map (·.file) = (l.entries ++ opened e).map (·.file) := by
  cases hEffect : e.kind.effect with
  | opens => rw [step_of_opens hEffect]
  | closes =>
    rw [step_of_closes hEffect, files_leave, opened_eq_nil (by rw [hEffect]; decide), List.append_nil]
  | ends => rw [step_of_ends hEffect, opened_eq_nil (by rw [hEffect]; decide), List.append_nil]
  | stays =>
    rw [step_of_stays hEffect, opened_eq_nil (by rw [hEffect]; decide), List.append_nil]
    unfold amend
    split
    · exact map_file_modify _ _ (file_amendment _ e)
    · rfl

/-- The entries are those of the projects that were started, in order. -/
theorem files_run (l : Ledger) (events : List Event) :
    (l.run events).entries.map (·.file) = (l.entries ++ events.flatMap opened).map (·.file) := by
  induction events generalizing l with
  | nil => rw [run_nil, List.flatMap_nil, List.append_nil]
  | cons e rest ih =>
    rw [run_cons, ih, List.map_append, files_step, ← List.map_append, List.append_assoc,
      List.flatMap_cons]

-- ---------------------------------------------------------------------------
-- Open projects have entries
-- ---------------------------------------------------------------------------

/-- The projects that are open have entries. -/
def Sound (l : Ledger) : Prop :=
  ∀ k, .project k ∈ l.frames → k < l.entries.length

/-- An open project has an entry after an event: entries are never taken away, and a project that
opens has the last one. -/
theorem Sound.step (h : l.Sound) (e : Event) : (l.step e).Sound := by
  intro k hk
  cases hEffect : e.kind.effect with
  | opens =>
    rw [step_of_opens hEffect] at hk ⊢
    rw [List.length_append]
    rcases List.mem_cons.mp hk with hNew | hOld
    · -- only the start of a project opens a project, and it has the next entry
      unfold opening at hNew
      unfold opened
      cases hKind : e.kind with
      | projectStarted => 
        rw [hKind] at hNew
        cases hNew
        exact Nat.lt_add_one _
      | targetStarted => rw [hKind] at hNew; cases hNew
      | taskStarted => rw [hKind] at hNew; cases hNew
      | _ => rw [hKind] at hEffect; exact absurd hEffect (by decide)
    · exact Nat.lt_add_right _ (h k hOld)
  | closes =>
    have hFrames : (l.leave e.succeeded.holds).frames = l.frames.tail := frames_leave l _
    have hLength : (l.leave e.succeeded.holds).entries.length = l.entries.length := by
      simpa using congrArg List.length (files_leave l e.succeeded.holds)
    rw [step_of_closes hEffect] at hk ⊢
    rw [hFrames] at hk
    rw [hLength]
    exact h k (List.mem_of_mem_tail hk)
  | ends =>
    rw [step_of_ends hEffect] at hk
    cases hk
  | stays =>
    rw [step_of_stays hEffect, frames_amend] at hk
    rw [step_of_stays hEffect, length_amend]
    exact h k hk

/-- An open project has an entry after any events. -/
theorem Sound.run (h : l.Sound) (events : List Event) : (l.run events).Sound := by
  induction events generalizing l with
  | nil => exact h
  | cons e rest ih => exact ih (h.step e)

theorem sound_empty : ({} : Ledger).Sound := fun _ hk => nomatch hk

end Ledger

end BuildDigest
