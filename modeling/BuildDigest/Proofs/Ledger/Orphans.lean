import BuildDigest.Proofs.Ledger.Insertion
import BuildDigest.Proofs.Ledger.Report

/-!
# Command lines of no task

A command line that names no task is one of the task that is open around it. If
none is, it has no task, and counts as a compiler call. Inside a task of some name
it is one of that task instead: it still counts if the task is a compiler task,
and does not otherwise.

* `Ledger.isOrphan` — the command lines of no task.
* `Analysis.Alike` — entries that report the same.
* `Analysis.alike_run` — a build inside a task, and the build alone, with the command lines of no
  task or without them.
-/

namespace BuildDigest

open Ledger (Call Entry Frame)

namespace Ledger

variable {e : Event}

/-- Whether an event is a command line of no task: it names none, and none is open. -/
def isOrphan (l : Ledger) (e : Event) : Bool :=
  match e.kind with
  | .message | .warning | .error =>
    e.isCommandLine && e.taskName.plain == "" && (l.frames.findSome? Frame.taskName?).isNone
  | _ => false

/-- Events without the command lines of no task. -/
def withoutOrphans (l : Ledger) : List Event → List Event
  | [] => []
  | e :: rest =>
    if l.isOrphan e then l.withoutOrphans rest else e :: (l.step e).withoutOrphans rest

/-- What is left when command lines of no task are left out was among the events. -/
theorem mem_of_mem_withoutOrphans {l : Ledger} {events : List Event}
    (h : e ∈ l.withoutOrphans events) : e ∈ events := by
  induction events generalizing l with
  | nil => exact h
  | cons e' rest ih =>
    rw [withoutOrphans] at h
    split at h
    · exact List.mem_cons_of_mem e' (ih h)
    · rcases List.mem_cons.mp h with hHere | hRest
      · rw [hHere]
        exact List.mem_cons_self
      · exact List.mem_cons_of_mem e' (ih hRest)

/-- One event that is left out if it is a command line of no task. -/
def stepUnless (skips : Bool) (l : Ledger) (e : Event) : Ledger :=
  if skips && l.isOrphan e then l else l.step e

/-- Leaving out each command line of no task when it comes is leaving all of them out beforehand. -/
theorem foldl_stepUnless (skips : Bool) (l : Ledger) (events : List Event) :
    events.foldl (stepUnless skips) l =
      l.run (if skips then l.withoutOrphans events else events) := by
  induction events generalizing l with
  | nil => cases skips <;> rfl
  | cons e rest ih =>
    rw [List.foldl_cons, ih, stepUnless]
    cases skips with
    | false => rfl
    | true =>
      rw [withoutOrphans]
      cases l.isOrphan e <;> rfl

/-- What opens or closes something is never left out. -/
theorem stepUnless_of_effect (skips : Bool) {l : Ledger} (h : e.kind.effect ≠ .stays) :
    l.stepUnless skips e = l.step e := by
  unfold stepUnless isOrphan
  cases hKind : e.kind with
  | message | warning | error => exact absurd (by rw [hKind]; rfl) h
  | _ => rw [Bool.and_false, if_neg Bool.false_ne_true]

-- ---------------------------------------------------------------------------
-- Frames inside a task
-- ---------------------------------------------------------------------------

/-- A task around everything leaves the innermost project as it is. -/
theorem innermost_concat_task (frames : List Frame) (task : String) :
    innermost (frames ++ [.task task]) = innermost frames := by
  unfold innermost
  rw [List.findSome?_append]
  exact Option.or_none

/-- A task around everything leaves the open targets as they are. -/
theorem openTargets_concat_task (frames : List Frame) (task : String) :
    openTargets (frames ++ [.task task]) = openTargets frames := by
  induction frames with
  | nil => rfl
  | cons frame rest ih =>
    rw [List.cons_append, openTargets_cons, openTargets_cons]
    cases frame with
    | project k => rfl
    | target name => exact congrArg (name :: ·) ih
    | task name => exact ih

/-- A command line that names its task, or stands inside one, is the same inside one more. -/
theorem callOf_concat_task {frames : List Frame}
    (h : e.taskName.plain ≠ "" ∨ (frames.findSome? Frame.taskName?).isSome = true) (task : String) :
    callOf (frames ++ [.task task]) e = callOf frames e := by
  unfold callOf
  rw [openTargets_concat_task]
  by_cases hName : e.taskName.plain = ""
  · obtain ⟨name, hOpen⟩ := Option.isSome_iff_exists.mp (h.resolve_left (· hName))
    have hSame : openTask (frames ++ [.task task]) = openTask frames := by
      unfold openTask
      rw [List.findSome?_append, hOpen, Option.some_or]
    rw [hSame]
  · rw [if_neg hName, if_neg hName]

/-- An amendment is the same inside one more task, unless it is a command line of no task. -/
theorem amendment_concat_task {l : Ledger} (h : l.isOrphan e = false) (task : String) :
    amendment (l.frames ++ [.task task]) e = amendment l.frames e := by
  funext b
  unfold amendment
  unfold isOrphan at h
  cases hKind : e.kind with
  | message | warning | error =>
    rw [hKind] at h
    cases hLine : e.isCommandLine with
    | false => rfl
    | true =>
      have hTask : e.taskName.plain ≠ "" ∨ (l.frames.findSome? Frame.taskName?).isSome = true := by
        simp only [hLine, Bool.true_and, Bool.and_eq_false_iff, beq_eq_false_iff_ne,
          Option.isNone_eq_false_iff] at h
        exact h
      exact congrArg b.addCall (callOf_concat_task hTask task)
  | _ => rfl

def orphanCall (frames : List Frame) (e : Event) (task : String) : Call where
  text := e.commandLine.plain
  task := task
  targets := openTargets frames

/-- A command line of no task takes the name of a task that is put around. -/
theorem amendment_of_isOrphan {l : Ledger} (h : l.isOrphan e = true) :
    e.kind.effect = .stays ∧ (∀ b, amendment l.frames e b = b.addCall (orphanCall l.frames e "")) ∧
      ∀ task b, amendment (l.frames ++ [.task task]) e b =
        b.addCall (orphanCall l.frames e task) := by
  unfold isOrphan at h
  unfold amendment
  cases hKind : e.kind with
  | message | warning | error =>
    rw [hKind] at h
    simp only [Bool.and_eq_true, beq_iff_eq, Option.isNone_iff_eq_none] at h
    obtain ⟨⟨hLine, hName⟩, hNone⟩ := h
    refine ⟨rfl, fun b => ?_, fun task b => ?_⟩
    · simp only [hLine, callOf, if_pos hName, openTask, hNone]
      rfl
    · simp only [hLine, callOf, if_pos hName, openTask_append, hNone, openTargets_concat_task]
      rfl
  | _ => rw [hKind] at h; cases h

end Ledger

-- ---------------------------------------------------------------------------
-- Entries that report the same
-- ---------------------------------------------------------------------------

namespace Analysis

variable (q : Analysis)

def compilerLines (calls : List Call) : List (String × List String) :=
  (calls.filter q.isCompilerCall).map fun c => (c.text, c.targets)

/-- Two entries are alike if they differ in their calls only, and not in those of compilers. -/
def Alike (b b' : Entry) : Prop :=
  ∃ calls, b' = { b with calls } ∧ q.compilerLines calls = q.compilerLines b.calls

theorem compilerLines_append (calls more : List Call) :
    q.compilerLines (calls ++ more) = q.compilerLines calls ++ q.compilerLines more := by
  unfold compilerLines
  rw [List.filter_append, List.map_append]

namespace Alike

variable {q} {b b' : Entry}

theorem refl (b : Entry) : q.Alike b b := ⟨b.calls, rfl, rfl⟩

/-- Calls that are alike as compiler calls keep entries alike. -/
theorem addCall (h : q.Alike b b') {c c' : Call}
    (hLines : q.compilerLines [c'] = q.compilerLines [c]) :
    q.Alike (b.addCall c) (b'.addCall c') := by
  obtain ⟨calls, rfl, hCalls⟩ := h
  refine ⟨calls ++ [c'], rfl, ?_⟩
  show q.compilerLines (calls ++ [c']) = q.compilerLines (b.calls ++ [c])
  rw [compilerLines_append, compilerLines_append, hCalls, hLines]

/-- A call that is no compiler call keeps entries alike on one side alone. -/
theorem skipCall (h : q.Alike b b') {c : Call} (hLines : q.compilerLines [c] = []) :
    q.Alike b (b'.addCall c) := by
  obtain ⟨calls, rfl, hCalls⟩ := h
  refine ⟨calls ++ [c], rfl, ?_⟩
  rw [compilerLines_append, hLines, hCalls, List.append_nil]

theorem finish (h : q.Alike b b') (succeeded : Bool) :
    q.Alike (b.finish succeeded) (b'.finish succeeded) := by
  obtain ⟨calls, rfl, hCalls⟩ := h
  exact ⟨calls, rfl, hCalls⟩

/-- The same amendment keeps entries alike. -/
theorem amendment (h : q.Alike b b') (frames : List Frame) (e : Event) :
    q.Alike (Ledger.amendment frames e b) (Ledger.amendment frames e b') := by
  unfold Ledger.amendment
  cases e.kind with
  | message | warning | error =>
    cases e.isCommandLine with
    | true => exact h.addCall rfl
    | false => exact h
  | custom | status =>
    obtain ⟨calls, rfl, hCalls⟩ := h
    exact ⟨calls, rfl, hCalls⟩
  | _ => exact h

/-- Entries that are alike report the same. -/
theorem feedEntry_eq (h : q.Alike b b') (s : Snapshot) :
    q.gathering.feedEntry b' s = q.gathering.feedEntry b s := by
  obtain ⟨calls, rfl, hCalls⟩ := h
  -- of a call only its text and its targets are looked at
  have hKeep (calls : List Call) (kept : Option (List CommandLine.Argument)) :
      (calls.filter q.isCompilerCall).foldl q.keep kept =
        (q.compilerLines calls).foldl (fun kept line => q.keep kept ⟨line.1, "", line.2⟩) kept := by
    rw [compilerLines, List.foldl_map]
    rfl
  have hReport (s : Snapshot) : q.gathering.reportCalls s (calls.filter q.isCompilerCall) =
      q.gathering.reportCalls s (b.calls.filter q.isCompilerCall) := by
    rw [q.reportCalls_eq, q.reportCalls_eq, hKeep, hKeep, hCalls]
  unfold Gathering.feedEntry
  dsimp only
  rw [Snapshot.recordProperties_map_text]
  refine bind_congr fun s => ?_
  rw [q.compilerCalls_eq, q.compilerCalls_eq]
  exact hReport s

/-- Entries that are alike are passed over, or add the same, together. -/
theorem visitEntry_eq (h : q.Alike b b') (snapshots : Ordered String Snapshot) :
    q.gathering.visitEntry snapshots b' = q.gathering.visitEntry snapshots b := by
  have hFeed := h.feedEntry_eq
  obtain ⟨calls, rfl, -⟩ := h
  unfold Gathering.visitEntry
  simp only [hFeed]
  rfl

end Alike

/-- Rows of entries that are alike come to the same snapshots. -/
theorem foldlM_visitEntry_eq {entries entries' : List Entry}
    (h : List.Forall₂ q.Alike entries entries') (snapshots : Ordered String Snapshot) :
    entries'.foldlM q.gathering.visitEntry snapshots =
      entries.foldlM q.gathering.visitEntry snapshots := by
  induction h generalizing snapshots with
  | nil => rfl
  | cons hAlike _ ih =>
    rw [List.foldlM_cons, List.foldlM_cons, hAlike.visitEntry_eq]
    exact bind_congr fun snapshots => ih snapshots

-- ---------------------------------------------------------------------------
-- A build inside a task
-- ---------------------------------------------------------------------------

/-- Changes at the same place of two rows leave them related if they leave each pair related. -/
theorem forall₂_modify_both {α β : Type} {R : α → β → Prop} {xs : List α} {ys : List β}
    (h : List.Forall₂ R xs ys) {f : α → α} {g : β → β} (hBoth : ∀ x y, R x y → R (f x) (g y))
    (k : Nat) : List.Forall₂ R (xs.modify k f) (ys.modify k g) := by
  induction h generalizing k with
  | nil => cases k <;> exact .nil
  | cons hHere hRest ih =>
    cases k with
    | zero => exact .cons (hBoth _ _ hHere) hRest
    | succ k => exact .cons hHere (ih k)

/-- A build, with its own frames only, and inside a task; the entries are alike. -/
structure Apart (task : String) (depth : Nat) (s : Ledger × Ledger) : Prop where
  depth : s.1.frames.length = depth + 1
  frames : s.2.frames = s.1.frames ++ [.task task]
  entries : List.Forall₂ q.Alike s.1.entries s.2.entries

namespace Apart

variable {q} {task : String} {depth : Nat} {s : Ledger × Ledger} {e : Event}

/-- Reports on the same project leave the two ledgers apart by a task as they were. -/
theorem amend (h : q.Apart task depth s) {f f' : Entry → Entry}
    (hBoth : ∀ b b', q.Alike b b' → q.Alike (f b) (f' b')) :
    q.Apart task depth (s.1.amend f, s.2.amend f') := by
  refine ⟨?_, ?_, ?_⟩
  · rw [Ledger.frames_amend]
    exact h.depth
  · rw [Ledger.frames_amend, Ledger.frames_amend]
    exact h.frames
  · show List.Forall₂ q.Alike (s.1.amend f).entries (s.2.amend f').entries
    unfold Ledger.amend
    rw [h.frames, Ledger.innermost_concat_task]
    cases Ledger.innermost s.1.frames with
    | none => exact h.entries
    | some k => exact forall₂_modify_both h.entries hBoth k

/-- A part that opens is one frame more in both ledgers. -/
theorem opens (h : q.Apart task depth s) (hEffect : e.kind.effect = .opens) :
    q.Apart task (depth + 1) (s.1.step e, s.2.step e) := by
  rw [Ledger.step_of_opens hEffect, Ledger.step_of_opens hEffect, h.frames, h.entries.length_eq]
  refine ⟨?_, rfl, List.rel_append h.entries ?_⟩
  · show s.1.frames.length + 1 = _
    rw [h.depth]
  · exact List.forall₂_same.mpr fun b _ => .refl b

/-- Closing the innermost frame leaves the entries alike, and the task around the rest. -/
theorem leave (h : q.Apart task depth s) (succeeded : Bool) :
    List.Forall₂ q.Alike (s.1.leave succeeded).entries (s.2.leave succeeded).entries ∧
      (s.2.leave succeeded).frames = (s.1.leave succeeded).frames ++ [.task task] := by
  obtain ⟨frame, rest, hFrames⟩ := List.exists_cons_of_length_eq_add_one h.depth
  have hFrames' : s.2.frames = frame :: (rest ++ [.task task]) := by
    rw [h.frames, hFrames, List.cons_append]
  unfold Ledger.leave
  rw [hFrames, hFrames']
  cases frame with
  | project k =>
    exact ⟨forall₂_modify_both h.entries (fun _ _ hAlike => hAlike.finish succeeded) k, rfl⟩
  | target name | task name => exact ⟨h.entries, rfl⟩

/-- A part that finishes is one frame less in both ledgers. -/
theorem closes (h : q.Apart task (depth + 1) s) (hEffect : e.kind.effect = .closes) :
    q.Apart task depth (s.1.step e, s.2.step e) := by
  obtain ⟨hEntries, hFrames⟩ := h.leave e.succeeded.holds
  rw [Ledger.step_of_closes hEffect, Ledger.step_of_closes hEffect]
  refine ⟨?_, hFrames, hEntries⟩
  rw [Ledger.frames_leave, List.length_tail, h.depth]
  rfl

/-- A command line of no task counts inside a compiler task, and is left out otherwise. -/
theorem orphan (h : q.Apart task depth s) (hOrphan : s.1.isOrphan e = true) :
    q.Apart task depth (s.1.stepUnless (!q.isCompilerTask task) e, s.2.step e) := by
  obtain ⟨hEffect, hOwn, hTask⟩ := Ledger.amendment_of_isOrphan hOrphan
  rw [Ledger.stepUnless, hOrphan, Bool.and_true, Ledger.step_of_stays hEffect,
    Ledger.step_of_stays hEffect, h.frames]
  cases hCompiler : q.isCompilerTask task with
  | true =>
    refine h.amend fun b b' hAlike => ?_
    rw [hOwn, hTask]
    refine hAlike.addCall ?_
    have hNone : q.isCompilerTask "" = true := rfl
    simp [compilerLines, isCompilerCall, Ledger.orphanCall, hCompiler, hNone]
  | false =>
    have hSkip : q.Apart task depth (s.1.amend fun b => b,
        s.2.amend (Ledger.amendment (s.1.frames ++ [.task task]) e)) := by
      refine h.amend fun b b' hAlike => ?_
      rw [hTask]
      refine hAlike.skipCall ?_
      simp [compilerLines, isCompilerCall, Ledger.orphanCall, hCompiler]
    rw [Ledger.amend_id] at hSkip
    exact hSkip

/-- What is reported is the same in both ledgers, or a command line of no task. That one is a call
of the task in one of them, and is left out of the other unless the task is a compiler task. -/
theorem stays (h : q.Apart task depth s) (hEffect : e.kind.effect = .stays) :
    q.Apart task depth (s.1.stepUnless (!q.isCompilerTask task) e, s.2.step e) := by
  cases hOrphan : s.1.isOrphan e with
  | true => exact h.orphan hOrphan
  | false =>
    rw [Ledger.stepUnless, hOrphan, Bool.and_false, if_neg Bool.false_ne_true,
      Ledger.step_of_stays hEffect, Ledger.step_of_stays hEffect, h.frames,
      Ledger.amendment_concat_task hOrphan]
    exact h.amend fun _ _ hAlike => hAlike.amendment _ e

/-- At the start of a build both ledgers have its entry, and one has it inside a task. -/
theorem start {first : Event} (hFirst : first.kind = .projectStarted) (task : String) :
    q.Apart task 0 (Ledger.step {} first, Ledger.step { frames := [.task task] } first) := by
  have hEffect : first.kind.effect = .opens := by rw [hFirst]; rfl
  rw [Ledger.step_of_opens hEffect, Ledger.step_of_opens hEffect]
  exact ⟨rfl, rfl, List.forall₂_same.mpr fun b _ => .refl b⟩

end Apart

/-- What a build adds inside a task of some name is alike what it adds alone, if the task is a
compiler task; else its command lines of no task do not count. -/
theorem alike_run (q : Analysis) {block : List Event} (hBlock : Event.isBuild block = true)
    (task : String) :
    List.Forall₂ q.Alike
      (Ledger.run {} (if q.isCompilerTask task then block else Ledger.withoutOrphans {} block)).entries
      (Ledger.run { frames := [.task task] } block).entries := by
  obtain ⟨first, rest, rfl, hFirst, hRest⟩ := Event.exists_of_isBuild hBlock
  have hAfter := Event.foldl_of_closesAll (q.Apart task)
    (fun s => List.Forall₂ q.Alike s.1.entries s.2.entries)
    (fun s e => (s.1.stepUnless (!q.isCompilerTask task) e, s.2.step e))
    (fun _ _ _ h hEffect => by
      rw [Ledger.stepUnless_of_effect _ (by rw [hEffect]; decide)]
      exact h.opens hEffect)
    (fun _ _ _ h hEffect => by
      rw [Ledger.stepUnless_of_effect _ (by rw [hEffect]; decide)]
      exact h.closes hEffect)
    (fun _ _ _ h hEffect => h.stays hEffect)
    (fun s e h hEffect => by
      rw [Ledger.stepUnless_of_effect _ (by rw [hEffect]; decide), Ledger.step_of_closes hEffect,
        Ledger.step_of_closes hEffect]
      exact (h.leave e.succeeded.holds).1)
    hRest (Apart.start hFirst task)
  have hOwn := Ledger.foldl_stepUnless (!q.isCompilerTask task) {} (first :: rest)
  rw [List.foldl_cons, Ledger.stepUnless_of_effect _ (by rw [hFirst]; decide)] at hOwn
  rw [Event.foldl_pair] at hAfter
  dsimp only at hAfter
  rw [hOwn] at hAfter
  cases hCompiler : q.isCompilerTask task <;> rw [hCompiler] at hAfter <;> exact hAfter

end Analysis

end BuildDigest
