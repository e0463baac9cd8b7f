import BuildDigest.Proofs.Ledger.Blocks

/-!
# A build among other events

A build that is put in among other events leaves what is open as it was and only
adds entries. What it adds depends on its surroundings in one thing, the name of
the task that is open around it. Everything that comes later is written into the
same entries as without it; those that open later are numbered higher.

* `Ledger.Shifted` — two ledgers, one with more entries at some place.
* `Ledger.run_build` — a build adds the entries that it has alone, inside an open task.
* `Ledger.run_insert` — a build among other events only inserts its entries.
-/

namespace BuildDigest

namespace Ledger

variable {place count : Nat} {e : Event}

/-- The number of an entry after `count` entries are inserted at a place. -/
def moved (place count k : Nat) : Nat :=
  if k < place then k else k + count

/-- A frame whose entry has another number. -/
def Frame.renumber (r : Nat → Nat) : Frame → Frame
  | .project k => .project (r k)
  | .target name => .target name
  | .task name => .task name

def Frame.shift (place count : Nat) : Frame → Frame
  | .project k => .project (moved place count k)
  | .target name => .target name
  | .task name => .task name

theorem shift_eq_renumber : Frame.shift place count = Frame.renumber (moved place count) := by
  funext frame
  cases frame <;> rfl

-- ---------------------------------------------------------------------------
-- What open frames tell
-- ---------------------------------------------------------------------------

/-- Renumbering the entries of frames renumbers that of the innermost project. -/
theorem innermost_map_renumber (r : Nat → Nat) (frames : List Frame) :
    innermost (frames.map (Frame.renumber r)) = (innermost frames).map r := by
  unfold innermost
  induction frames with
  | nil => rfl
  | cons frame rest ih =>
    cases frame with
    | project k => rfl
    | target name | task name => exact ih

/-- The innermost project has its entry moved with the others. -/
theorem innermost_map_shift (frames : List Frame) :
    innermost (frames.map (Frame.shift place count)) =
      (innermost frames).map (moved place count) := by
  rw [shift_eq_renumber, innermost_map_renumber]

/-- Moving entries leaves the names of the open tasks. -/
theorem findSome?_taskName?_map_shift (frames : List Frame) :
    (frames.map (Frame.shift place count)).findSome? Frame.taskName? =
      frames.findSome? Frame.taskName? := by
  induction frames with
  | nil => rfl
  | cons frame rest ih =>
    cases frame with
    | task name => rfl
    | project k | target name => exact ih

/-- The innermost task is looked for among the inner frames, and then among the outer ones. -/
theorem openTask_append (frames rest : List Frame) :
    openTask (frames ++ rest) = (frames.findSome? Frame.taskName?).getD (openTask rest) := by
  unfold openTask
  rw [List.findSome?_append]
  cases frames.findSome? Frame.taskName? <;> rfl

/-- The open targets are read from the inside up to the innermost project. -/
theorem openTargets_cons (frame : Frame) (rest : List Frame) :
    openTargets (frame :: rest) =
      match frame with
      | .project _ => []
      | .target name => name :: openTargets rest
      | .task _ => openTargets rest := by
  cases frame <;> rfl

/-- Renumbering entries leaves the open targets. -/
theorem openTargets_map_renumber (r : Nat → Nat) (frames : List Frame) :
    openTargets (frames.map (Frame.renumber r)) = openTargets frames := by
  induction frames with
  | nil => rfl
  | cons frame rest ih =>
    rw [List.map_cons, openTargets_cons, openTargets_cons]
    cases frame with
    | project k => rfl
    | target name => exact congrArg (name :: ·) ih
    | task name => exact ih

theorem openTargets_map_shift (frames : List Frame) :
    openTargets (frames.map (Frame.shift place count)) = openTargets frames := by
  rw [shift_eq_renumber, openTargets_map_renumber]

/-- Targets outside the innermost project are not seen. -/
theorem openTargets_append {frames : List Frame} (h : (innermost frames).isSome = true)
    (rest : List Frame) : openTargets (frames ++ rest) = openTargets frames := by
  induction frames with
  | nil => cases h
  | cons frame frames ih =>
    rw [List.cons_append, openTargets_cons, openTargets_cons]
    cases frame with
    | project k => rfl
    | target name => exact congrArg (name :: ·) (ih h)
    | task name => exact ih h

/-- An open project among the inner frames hides the outer ones. -/
theorem innermost_append {frames : List Frame} (h : (innermost frames).isSome = true)
    (rest : List Frame) : innermost (frames ++ rest) = innermost frames := by
  obtain ⟨k, hk⟩ := Option.isSome_iff_exists.mp h
  unfold innermost at hk ⊢
  rw [List.findSome?_append, hk, Option.some_or]

/-- A call depends on what is open only through the task and the targets. -/
theorem callOf_eq {frames frames' : List Frame} (hTask : openTask frames' = openTask frames)
    (hTargets : openTargets frames' = openTargets frames) (e : Event) :
    callOf frames' e = callOf frames e := by
  unfold callOf
  rw [hTask, hTargets]

/-- An amendment depends on what is open only through the task and the targets. -/
theorem amendment_eq {frames frames' : List Frame} (hTask : openTask frames' = openTask frames)
    (hTargets : openTargets frames' = openTargets frames) (e : Event) :
    amendment frames' e = amendment frames e := by
  funext b
  unfold amendment
  rw [callOf_eq hTask hTargets]

-- ---------------------------------------------------------------------------
-- Ledgers with more entries
-- ---------------------------------------------------------------------------

/-- The second ledger has more entries at a place; above the frames that each has of its own, both
have the same frames open. -/
structure Shifted (place : Nat) (extra : List Entry) (top low low' : List Frame) (l l' : Ledger) :
    Prop where
  entries : ∃ before after, before.length = place ∧ l.entries = before ++ after ∧
    l'.entries = before ++ (extra ++ after)
  frames : l.frames = top ++ low
  frames' : l'.frames = top.map (Frame.shift place extra.length) ++ low'

namespace Shifted

variable {extra : List Entry} {top low low' : List Frame} {l l' : Ledger}

/-- A change of an entry in one ledger, and of the moved one in the other, leaves the added entries
where they are. -/
theorem modify (h : Shifted place extra top low low' l l') (k : Nat) (f : Entry → Entry) :
    ∃ before after, before.length = place ∧ l.entries.modify k f = before ++ after ∧
      l'.entries.modify (moved place extra.length k) f = before ++ (extra ++ after) := by
  obtain ⟨before, after, hPlace, hEntries, hEntries'⟩ := h.entries
  subst hPlace
  rw [hEntries, hEntries', moved]
  -- the entry stands before the place, or behind it and behind what is inserted
  by_cases hk : k < before.length
  · refine ⟨before.modify k f, after, List.length_modify .., modify_append_left hk f, ?_⟩
    rw [if_pos hk, modify_append_left hk]
  · obtain ⟨j, rfl⟩ := Nat.exists_eq_add_of_le (Nat.le_of_not_lt hk)
    refine ⟨before, after.modify j f, rfl, modify_append_right before after j f, ?_⟩
    rw [if_neg hk, Nat.add_assoc, modify_append_right, Nat.add_comm j, modify_append_right]

/-- A report leaves two ledgers shifted when it goes to the same project in both. -/
theorem amend (h : Shifted place extra top low low' l l')
    (hInnermost : innermost l'.frames = (innermost l.frames).map (moved place extra.length))
    (f : Entry → Entry) : Shifted place extra top low low' (l.amend f) (l'.amend f) := by
  refine ⟨?_, (frames_amend l f).trans h.frames, (frames_amend l' f).trans h.frames'⟩
  unfold Ledger.amend
  rw [hInnermost]
  cases innermost l.frames with
  | none => exact h.entries
  | some k => exact h.modify k f

/-- Closing a frame that both have leaves two ledgers shifted. -/
theorem leave {frame : Frame} (h : Shifted place extra (frame :: top) low low' l l')
    (succeeded : Bool) :
    Shifted place extra top low low' (l.leave succeeded) (l'.leave succeeded) := by
  have hFrames := h.frames
  have hFrames' := h.frames'
  refine ⟨?_, ?_, ?_⟩
  · unfold Ledger.leave
    rw [hFrames, hFrames']
    cases frame with
    | project k => exact h.modify k _
    | target name | task name => exact h.entries
  · rw [frames_leave, hFrames]
    rfl
  · rw [frames_leave, hFrames']
    rfl

/-- A part that opens in both leaves two ledgers shifted. Its entry is the last one in each. -/
theorem opens (h : Shifted place extra top low low' l l') (hEffect : e.kind.effect = .opens) :
    Shifted place extra (opening l.entries.length e :: top) low low' (l.step e) (l'.step e) := by
  obtain ⟨before, after, hPlace, hEntries, hEntries'⟩ := h.entries
  rw [step_of_opens hEffect, step_of_opens hEffect]
  refine ⟨⟨before, after ++ opened e, hPlace, ?_, ?_⟩, ?_, ?_⟩
  · show l.entries ++ _ = _
    rw [hEntries, List.append_assoc]
  · show l'.entries ++ _ = _
    rw [hEntries', List.append_assoc, List.append_assoc]
  · exact congrArg (_ :: ·) h.frames
  · -- the entry that a project opens is the next one in either ledger
    have hNext : l'.entries.length = moved place extra.length l.entries.length := by
      rw [hEntries, hEntries', moved, if_neg (by rw [List.length_append]; omega)]
      simp only [List.length_append]
      omega
    have hOpening : opening l'.entries.length e =
        (opening l.entries.length e).shift place extra.length := by
      rw [hNext]
      unfold opening
      split <;> rfl
    show opening l'.entries.length e :: l'.frames = _
    rw [hOpening, h.frames']
    rfl

/-- A report is the same amendment in two ledgers that have the same project, task and targets
around it. -/
theorem stays (h : Shifted place extra top low low' l l') (hEffect : e.kind.effect = .stays)
    (hInnermost : innermost l'.frames = (innermost l.frames).map (moved place extra.length))
    (hTask : openTask l'.frames = openTask l.frames)
    (hTargets : openTargets l'.frames = openTargets l.frames) :
    Shifted place extra top low low' (l.step e) (l'.step e) := by
  rw [step_of_stays hEffect, step_of_stays hEffect, amendment_eq hTask hTargets]
  exact h.amend hInnermost _

end Shifted

-- ---------------------------------------------------------------------------
-- One build inside open frames
-- ---------------------------------------------------------------------------

/-- Inside a build: some frames are open above that of its project. -/
def Inside (base : Ledger) (depth : Nat) (s : Ledger × Ledger) : Prop :=
  ∃ top, top.length = depth ∧
    Shifted 0 base.entries (top ++ [.project 0]) [.task (openTask base.frames)] base.frames s.1 s.2

namespace Inside

variable {base : Ledger} {depth : Nat} {s : Ledger × Ledger}

/-- Above the frame of a project there is an innermost project. -/
theorem innermost_isSome (top : List Frame) (k : Nat) :
    (innermost (top ++ [Frame.project k])).isSome = true := by
  unfold innermost
  rw [List.findSome?_append]
  cases top.findSome? Frame.entry? <;> rfl

/-- The start of a build adds its entry, alone and among others. -/
theorem start {first : Event} (hFirst : first.kind = .projectStarted) :
    Inside base 0 (step { frames := [.task (openTask base.frames)] } first, base.step first) := by
  -- alone there are no entries before the first event, and around there are those of `base`
  have hStart : Shifted 0 base.entries [] [.task (openTask base.frames)] base.frames
      { frames := [.task (openTask base.frames)] } base :=
    ⟨⟨[], [], rfl, rfl, (List.append_nil _).symm⟩, rfl, rfl⟩
  have hProject : opening 0 first = .project 0 := by
    unfold opening
    rw [hFirst]
  have hOpened := hStart.opens (e := first) (by rw [hFirst]; rfl)
  rw [show ([] : List Entry).length = 0 from rfl, hProject] at hOpened
  exact ⟨[], rfl, hOpened⟩

/-- A part that opens inside a build is one frame more above its project. -/
theorem opens (h : Inside base depth s) (hEffect : e.kind.effect = .opens) :
    Inside base (depth + 1) (s.1.step e, s.2.step e) := by
  obtain ⟨top, hDepth, h⟩ := h
  exact ⟨opening s.1.entries.length e :: top, by rw [List.length_cons, hDepth], h.opens hEffect⟩

/-- A part inside a build that finishes is one frame less above its project. -/
theorem closes (h : Inside base (depth + 1) s) (hEffect : e.kind.effect = .closes) :
    Inside base depth (s.1.step e, s.2.step e) := by
  obtain ⟨top, hDepth, h⟩ := h
  obtain ⟨frame, top, rfl⟩ := List.exists_cons_of_length_eq_add_one hDepth
  rw [step_of_closes hEffect, step_of_closes hEffect]
  exact ⟨top, Nat.succ.inj hDepth, h.leave e.succeeded.holds⟩

/-- What is reported inside a build is reported within it, since its own project is open. -/
theorem stays (h : Inside base depth s) (hEffect : e.kind.effect = .stays) :
    Inside base depth (s.1.step e, s.2.step e) := by
  obtain ⟨top, hDepth, h⟩ := h
  have hProject := innermost_isSome top 0
  have hProject' : (innermost ((top ++ [Frame.project 0]).map
      (Frame.shift 0 base.entries.length))).isSome = true := by
    rw [innermost_map_shift, Option.isSome_map]
    exact hProject
  -- the project of the build is open, so no search for a project leaves the build
  refine ⟨top, hDepth, h.stays hEffect ?_ ?_ ?_⟩
  · rw [h.frames, h.frames', innermost_append hProject, innermost_append hProject',
      innermost_map_shift]
  · -- outside the build one task name is all that counts
    rw [h.frames, h.frames', openTask_append, openTask_append, findSome?_taskName?_map_shift]
    rfl
  · rw [h.frames, h.frames', openTargets_append hProject, openTargets_append hProject',
      openTargets_map_shift]

/-- The last event of a build closes its project. Around it everything is open that was open before,
and its entries are behind the others. -/
theorem last (h : Inside base 0 s) (hEffect : e.kind.effect = .closes) :
    (s.2.step e).entries = base.entries ++ (s.1.step e).entries ∧
      (s.2.step e).frames = base.frames := by
  obtain ⟨top, hDepth, h⟩ := h
  obtain rfl := List.eq_nil_of_length_eq_zero hDepth
  rw [step_of_closes hEffect, step_of_closes hEffect]
  have hLast := h.leave e.succeeded.holds
  obtain ⟨before, after, hPlace, hEntries, hEntries'⟩ := hLast.entries
  obtain rfl := List.eq_nil_of_length_eq_zero hPlace
  refine ⟨?_, hLast.frames'⟩
  rw [hEntries, hEntries']
  rfl

end Inside

/-- A build leaves what is open as it was, and adds the entries that it has alone inside a task of
the open task's name. -/
theorem run_build {block : List Event} (hBlock : Event.isBuild block = true) (base : Ledger) :
    (base.run block).entries =
        base.entries ++ (run { frames := [.task (openTask base.frames)] } block).entries ∧
      (base.run block).frames = base.frames := by
  obtain ⟨first, rest, rfl, hFirst, hRest⟩ := Event.exists_of_isBuild hBlock
  have hAfter := Event.foldl_of_closesAll (Inside base)
    (fun s => s.2.entries = base.entries ++ s.1.entries ∧ s.2.frames = base.frames)
    (fun s e => (s.1.step e, s.2.step e))
    (fun _ _ _ h => h.opens) (fun _ _ _ h => h.closes) (fun _ _ _ h => h.stays)
    (fun _ _ h => h.last) hRest (Inside.start hFirst)
  rw [Event.foldl_pair] at hAfter
  exact hAfter

-- ---------------------------------------------------------------------------
-- Builds among other events
-- ---------------------------------------------------------------------------

/-- Open projects have entries, so inserting behind the last one moves none of them. -/
theorem map_shift_of_sound {l : Ledger} (h : l.Sound) (count : Nat) :
    l.frames.map (Frame.shift l.entries.length count) = l.frames := by
  refine (List.map_congr_left fun frame hFrame => ?_).trans l.frames.map_id
  cases frame with
  | project k => exact congrArg Frame.project (if_pos (h k hFrame))
  | target name | task name => rfl

namespace Shifted

variable {extra : List Entry} {top : List Frame} {l l' : Ledger}

/-- One event leaves two ledgers shifted, whatever it is. The frames that they share go up and down
with it. -/
theorem step (h : Shifted place extra top [] [] l l') (e : Event) :
    ∃ top, Shifted place extra top [] [] (l.step e) (l'.step e) := by
  have hFrames : l'.frames = l.frames.map (Frame.shift place extra.length) := by
    rw [h.frames, h.frames', List.append_nil, List.append_nil]
  cases hEffect : e.kind.effect with
  | opens => exact ⟨_, h.opens hEffect⟩
  | closes =>
    rw [step_of_closes hEffect, step_of_closes hEffect]
    cases top with
    | cons frame rest => exact ⟨rest, h.leave _⟩
    | nil =>
      -- nothing is open in either
      refine ⟨[], ?_⟩
      have hNone : l.frames = [] := h.frames
      have hNone' : l'.frames = [] := h.frames'
      unfold Ledger.leave
      rw [hNone, hNone']
      exact h
  | ends =>
    rw [step_of_ends hEffect, step_of_ends hEffect]
    exact ⟨[], h.entries, rfl, rfl⟩
  | stays =>
    refine ⟨top, h.stays hEffect ?_ ?_ ?_⟩
    · rw [hFrames, innermost_map_shift]
    · unfold openTask
      rw [hFrames, findSome?_taskName?_map_shift]
    · rw [hFrames, openTargets_map_shift]

/-- Any events leave two ledgers shifted. -/
theorem run (h : Shifted place extra top [] [] l l') (events : List Event) :
    ∃ top, Shifted place extra top [] [] (l.run events) (l'.run events) := by
  induction events generalizing l l' top with
  | nil => exact ⟨top, h⟩
  | cons e rest ih =>
    obtain ⟨top', hStep⟩ := h.step e
    exact ih hStep

end Shifted

/-- A build among other events inserts entries of the projects that it starts, and that is all. -/
theorem run_insert {block : List Event} (hBlock : Event.isBuild block = true)
    (first later : List Event) :
    ∃ before extra after, (run {} (first ++ later)).entries = before ++ after ∧
      (run {} (first ++ block ++ later)).entries = before ++ (extra ++ after) ∧
      extra.map (·.file) = (block.flatMap opened).map (·.file) := by
  -- after the build the same is open as before it, with more entries behind
  obtain ⟨hEntries, hFrames⟩ := run_build hBlock (run {} first)
  have hSound := sound_empty.run first
  have hFiles := files_run { frames := [.task (openTask (run {} first).frames)] } block
  generalize (run { frames := [.task (openTask (run {} first).frames)] } block).entries = extra
    at hEntries hFiles
  have hShifted : Shifted (run {} first).entries.length extra (run {} first).frames [] []
      (run {} first) ((run {} first).run block) := by
    refine ⟨⟨(run {} first).entries, [], rfl, (List.append_nil _).symm, ?_⟩, ?_, ?_⟩
    · rw [hEntries, List.append_nil]
    · rw [List.append_nil]
    · rw [hFrames, map_shift_of_sound hSound, List.append_nil]
  obtain ⟨top, hLater⟩ := hShifted.run later
  obtain ⟨before, after, -, hWithout, hWith⟩ := hLater.entries
  refine ⟨before, extra, after, ?_, ?_, hFiles⟩
  · rw [run_append, hWithout]
  · rw [run_append, run_append, hWith]

-- ---------------------------------------------------------------------------
-- Entries of other projects
-- ---------------------------------------------------------------------------

/-- An entry of a project that is not asked for is passed over. -/
theorem visitEntry_of_not_wanted (g : Gathering) {b : Entry} (h : g.isWanted b.node = false)
    (snapshots : Ordered String Snapshot) : g.visitEntry snapshots b = .ok snapshots := by
  rw [Gathering.visitEntry, h, Bool.false_and, if_neg Bool.false_ne_true]

/-- Entries of projects that are not asked for are passed over. -/
theorem foldlM_of_not_wanted (g : Gathering) {entries : List Entry}
    (h : ∀ b ∈ entries, g.isWanted b.node = false) (snapshots : Ordered String Snapshot) :
    entries.foldlM g.visitEntry snapshots = .ok snapshots := by
  induction entries with
  | nil => rfl
  | cons b rest ih =>
    rw [List.foldlM_cons, visitEntry_of_not_wanted g (h b List.mem_cons_self)]
    exact ih fun b' hMem => h b' (List.mem_cons_of_mem b hMem)

end Ledger

end BuildDigest
