import BuildDigest.Proofs.Ledger.Insertion
import BuildDigest.Proofs.Ledger.Marked

/-!
# Builds that share a ledger

The events of several builds may come interleaved. Events do not say to which build
they belong, so what is open decides: an event is taken for the right build if parts
of its build are open where it looks. Events that keep to this come to a ledger whose
entries are those of the builds, put together.

* `Event.fits`, `Event.paired` — events come while parts of their builds are open.
* `Ledger.Shared` — a ledger marked with builds; `Shared.only` is the ledger of one build.
* `Shared.Takes` — an event is taken for its build.
* `Shared.exists_takes`, `Shared.exists_run` — one event, and events in order.
-/

namespace BuildDigest

namespace Event

variable {ι : Type} [DecidableEq ι]

/-- Whether the innermost open project belongs to a build. Of every open part it is known to which
build it belongs and what kind of event opened it. -/
def ownsProject (x : ι) (parts : List (ι × Kind)) : Bool :=
  (parts.find? fun part => part.2 = .projectStarted).all fun part => part.1 = x

/-- Whether the targets that are open inside the innermost open project belong to a build. -/
def ownsTargets (x : ι) (parts : List (ι × Kind)) : Bool :=
  (parts.takeWhile fun part => part.2 ≠ .projectStarted).all fun part =>
    part.2 = .targetStarted → part.1 = x

/-- Whether an event of a build comes while parts of its build are open: one that finishes a part
while the innermost part is one of its build, a late report while the innermost project is, and a
command line while the targets inside the project are too. -/
def fits (x : ι) (parts : List (ι × Kind)) (e : Event) : Bool :=
  match e.kind with
  | .buildStarted | .projectStarted | .targetStarted | .taskStarted => true
  | .projectFinished | .targetFinished | .taskFinished => parts.head?.any fun part => part.1 = x
  | .message | .warning | .error => !e.isCommandLine || (ownsProject x parts && ownsTargets x parts)
  | .custom | .status => (e.properties.isEmpty && e.items.isEmpty) || ownsProject x parts
  | .buildFinished => false

/-- What is open after an event of a build. -/
def advance (x : ι) (parts : List (ι × Kind)) (e : Event) : List (ι × Kind) :=
  match e.kind.effect with
  | .opens => (x, e.kind) :: parts
  | .closes => parts.tail
  | .stays => parts
  | .ends => []

/-- Whether all events come while parts of their builds are open. -/
def paired (parts : List (ι × Kind)) : List (ι × Event) → Bool
  | [] => true
  | (x, e) :: rest => fits x parts e && paired (advance x parts e) rest

/-- Whether an event names its task, if it is a command line. -/
def namesTask (e : Event) : Bool :=
  match e.kind with
  | .message | .warning | .error => !e.isCommandLine || e.taskName.plain != ""
  | _ => true

end Event

namespace Ledger

variable {ι : Type} {x y : ι} {e : Event} {k : Nat}

def Frame.kind : Frame → Event.Kind
  | .project _ => .projectStarted
  | .target _ => .targetStarted
  | .task _ => .taskStarted

def openParts (frames : List (ι × Frame)) : List (ι × Event.Kind) :=
  frames.map fun f => (f.1, f.2.kind)

/-- A ledger whose entries and frames are marked with the builds to which they belong. -/
structure Shared (ι : Type) where
  entries : List (ι × Entry) := []
  frames : List (ι × Frame) := []

/-- The ledger without the marks. -/
def Shared.plain (s : Shared ι) : Ledger where
  entries := s.entries.map (·.2)
  frames := s.frames.map (·.2)

/-- Open projects belong to the builds to which their entries belong. -/
def Shared.Sound (s : Shared ι) : Prop :=
  ∀ x k, (x, Frame.project k) ∈ s.frames → (Marked.marks s.entries)[k]? = some x

theorem Shared.Sound.lt_length {s : Shared ι} (h : s.Sound)
    (hMem : (x, Frame.project k) ∈ s.frames) : k < s.entries.length := by
  obtain ⟨hk, -⟩ := List.getElem?_eq_some_iff.mp (h x k hMem)
  rwa [Marked.marks, List.length_map] at hk

/-- A marked ledger with an entry changed. -/
def Shared.write (s : Shared ι) (k : Nat) (f : Entry → Entry) : Shared ι :=
  { s with entries := Marked.modify s.entries k f }

/-- A marked ledger with the innermost frame closed. -/
def Shared.drop (s : Shared ι) : Shared ι :=
  { s with frames := s.frames.tail }

theorem Shared.plain_write (s : Shared ι) (k : Nat) (f : Entry → Entry) :
    (s.write k f).plain = { s.plain with entries := s.plain.entries.modify k f } := by
  rw [Shared.plain, write, Marked.map_modify]
  rfl

/-- A change of an entry leaves the builds to which entries and open projects belong. -/
theorem Shared.Sound.write {s : Shared ι} (h : s.Sound) (k : Nat) (f : Entry → Entry) :
    (s.write k f).Sound := by
  intro x j hMem
  rw [Shared.write, Marked.marks_modify]
  exact h x j hMem

theorem Shared.Sound.drop {s : Shared ι} (h : s.Sound) : s.drop.Sound :=
  fun x k hMem => h x k (List.mem_of_mem_tail hMem)

theorem renumber_opening (r : Nat → Nat) (count : Nat) (e : Event) :
    (opening count e).renumber r = opening (r count) e := by
  unfold opening
  split <;> rfl

/-- A frame is of the kind of the event that opened it. -/
theorem kind_opening (count : Nat) (h : e.kind.effect = .opens) :
    (opening count e).kind = e.kind := by
  unfold opening
  cases hKind : e.kind with
  | projectStarted | targetStarted | taskStarted => rfl
  | _ => rw [hKind] at h; cases h

/-- A frame of a project has the next entry, which is what its event reports. -/
theorem opened_of_opening {count : Nat} (h : e.kind.effect = .opens)
    (hProject : opening count e = .project k) : k = count ∧ opened e = [.ofEvent e] := by
  unfold opening at hProject
  unfold opened
  cases hKind : e.kind with
  | projectStarted =>
    rw [hKind] at hProject
    cases hProject
    exact ⟨rfl, rfl⟩
  | targetStarted | taskStarted => rw [hKind] at hProject; cases hProject
  | _ => rw [hKind] at h; cases h

variable [DecidableEq ι]

-- ---------------------------------------------------------------------------
-- What marked frames tell
-- ---------------------------------------------------------------------------

/-- If the innermost project belongs to a build, it is the innermost project of that build alone. -/
theorem innermost_own {frames : List (ι × Frame)}
    (h : Event.ownsProject x (openParts frames) = true) :
    innermost (Marked.own x frames) = innermost (frames.map (·.2)) := by
  induction frames with
  | nil => rfl
  | cons f rest ih =>
    obtain ⟨y, frame⟩ := f
    rw [Marked.own_cons, List.map_cons]
    cases frame with
    | project k =>
      have hOwn : y = x := of_decide_eq_true h
      rw [if_pos hOwn]
      rfl
    | target name | task name =>
      split
      · exact ih h
      · exact ih h

/-- If the targets inside the innermost project belong to a build too, they are the targets of that
build alone. -/
theorem openTargets_own {frames : List (ι × Frame)}
    (h : Event.ownsProject x (openParts frames) = true)
    (hTargets : Event.ownsTargets x (openParts frames) = true) :
    openTargets (Marked.own x frames) = openTargets (frames.map (·.2)) := by
  induction frames with
  | nil => rfl
  | cons f rest ih =>
    obtain ⟨y, frame⟩ := f
    rw [Marked.own_cons, List.map_cons]
    cases frame with
    | project k =>
      have hOwn : y = x := of_decide_eq_true h
      rw [if_pos hOwn]
      rfl
    | target name =>
      have hBoth : (decide (y = x) && Event.ownsTargets x (openParts rest)) = true := by
        simpa [Event.ownsTargets, openParts, Frame.kind] using hTargets
      rw [Bool.and_eq_true, decide_eq_true_eq] at hBoth
      rw [if_pos hBoth.1, openTargets_cons, openTargets_cons]
      exact congrArg (name :: ·) (ih h hBoth.2)
    | task name =>
      have hRest : Event.ownsTargets x (openParts rest) = true := hTargets
      rw [openTargets_cons]
      split
      · exact ih h hRest
      · exact ih h hRest

/-- If the innermost project belongs to a build, its frame bears the mark of the build. -/
theorem mem_of_innermost {frames : List (ι × Frame)}
    (h : Event.ownsProject x (openParts frames) = true)
    (hk : innermost (frames.map (·.2)) = some k) : (x, Frame.project k) ∈ frames := by
  induction frames with
  | nil => cases hk
  | cons f rest ih =>
    obtain ⟨y, frame⟩ := f
    cases frame with
    | project k' =>
      obtain rfl : y = x := of_decide_eq_true h
      cases hk
      exact List.mem_cons_self ..
    | target name | task name => exact List.mem_cons_of_mem _ (ih h hk)

-- ---------------------------------------------------------------------------
-- The ledger of one build
-- ---------------------------------------------------------------------------

namespace Shared

variable {s : Shared ι} {frame : Frame} {rest : List (ι × Frame)}

def only (s : Shared ι) (x : ι) : Ledger where
  entries := Marked.own x s.entries
  frames := (Marked.own x s.frames).map (Frame.renumber (Marked.rank x s.entries))

/-- An event of a build is one for the ledger and for the ledger of the build, and none for the
ledgers of other builds. -/
structure Takes (s : Shared ι) (x : ι) (e : Event) (s' : Shared ι) : Prop where
  sound : s'.Sound
  plain : s'.plain = s.plain.step e
  own : s'.only x = (s.only x).step e
  others : ∀ y, y ≠ x → s'.only y = s.only y
  parts : openParts s'.frames = Event.advance x (openParts s.frames) e

/-- Entries that come later leave the numbers that the open projects have in the ledgers of their
builds. -/
theorem Sound.frames_append (h : s.Sound) (y : ι) (more : List (ι × Entry)) :
    (Marked.own y s.frames).map (Frame.renumber (Marked.rank y (s.entries ++ more))) =
      (s.only y).frames := by
  refine List.map_congr_left fun frame hFrame => ?_
  rw [Marked.mem_own] at hFrame
  cases frame with
  | project k =>
    exact congrArg Frame.project (Marked.rank_append (Nat.le_of_lt (h.lt_length hFrame)) y more)
  | target name | task name => rfl

/-- The entry and the frame of a part that opens are those of its build. -/
theorem takes_opens (hSound : s.Sound) (x : ι) (hEffect : e.kind.effect = .opens) :
    s.Takes x e { entries := s.entries ++ (opened e).map fun b => (x, b)
                  frames := (x, opening s.entries.length e) :: s.frames } where
  sound z k hMem := by
    rw [Marked.marks_append]
    rcases List.mem_cons.mp hMem with hNew | hOld
    · obtain ⟨rfl, hProject⟩ := Prod.mk.inj hNew
      obtain ⟨rfl, hOpened⟩ := opened_of_opening hEffect hProject.symm
      have hLength : (Marked.marks s.entries).length = s.entries.length := List.length_map _
      rw [hOpened, ← hLength, List.getElem?_append_right (Nat.le_refl _), Nat.sub_self]
      rfl
    · obtain ⟨hk, -⟩ := List.getElem?_eq_some_iff.mp (hSound z k hOld)
      rw [List.getElem?_append_left hk]
      exact hSound z k hOld
  plain := by
    rw [step_of_opens hEffect]
    simp only [Shared.plain, List.map_append, List.map_map, List.map_cons, List.length_map]
    rw [List.map_id'' (f := (·.2) ∘ fun b => (x, b)) fun _ => rfl]
  own := by
    have hFrame : (opening s.entries.length e).renumber (Marked.rank x (s.entries ++
        (opened e).map fun b => (x, b))) = opening (s.only x).entries.length e := by
      rw [renumber_opening, Marked.rank_append (Nat.le_refl _), Marked.rank_length]
      rfl
    rw [step_of_opens hEffect, Shared.only, Marked.own_append, Marked.own_map_mk, if_pos rfl,
      Marked.own_cons, if_pos rfl, List.map_cons, hSound.frames_append, hFrame]
    rfl
  others y hy := by
    rw [Shared.only, Marked.own_append, Marked.own_map_mk, if_neg (Ne.symm hy), List.append_nil,
      Marked.own_cons, if_neg (Ne.symm hy), hSound.frames_append]
    rfl
  parts := by
    rw [Event.advance, hEffect, openParts, List.map_cons, kind_opening _ hEffect]
    rfl

-- ---------------------------------------------------------------------------
-- Entries that are written
-- ---------------------------------------------------------------------------

/-- A change of an entry is one in the ledger of its build, and in no other. -/
theorem only_write (f : Entry → Entry) (hMark : (Marked.marks s.entries)[k]? = some x) (y : ι) :
    (s.write k f).only y =
      if x = y then
        { s.only y with entries := (s.only y).entries.modify (Marked.rank y s.entries k) f }
      else s.only y := by
  rw [Shared.only, write, Marked.own_modify f hMark, Marked.rank_modify]
  by_cases h : x = y
  · rw [if_pos h, if_pos h]
    rfl
  · rw [if_neg h, if_neg h]
    rfl

/-- The part that an event closes is one of its build. -/
theorem exists_takes_closes (hSound : s.Sound) (hTop : s.frames = (x, frame) :: rest)
    (hEffect : e.kind.effect = .closes) : ∃ s', s.Takes x e s' := by
  have hOwn : (s.only x).frames =
      frame.renumber (Marked.rank x s.entries) :: (s.drop.only x).frames := by
    rw [Shared.only, Shared.only, Shared.drop, hTop, Marked.own_cons, if_pos rfl]
    rfl
  have hOthers : ∀ y, y ≠ x → s.drop.only y = s.only y := by
    intro y hy
    rw [Shared.only, Shared.only, Shared.drop, hTop, Marked.own_cons, if_neg (Ne.symm hy)]
    rfl
  have hPlain : s.plain.frames = frame :: s.drop.plain.frames := by
    rw [Shared.plain, Shared.plain, Shared.drop, hTop]
    rfl
  have hParts : openParts s.drop.frames = Event.advance x (openParts s.frames) e := by
    rw [Event.advance, hEffect, Shared.drop, hTop]
    rfl
  cases frame with
  | project k =>
    have hMark : (Marked.marks s.drop.entries)[k]? = some x :=
      hSound x k (hTop ▸ List.mem_cons_self ..)
    refine ⟨s.drop.write k (·.finish e.succeeded.holds), hSound.drop.write k _, ?_, ?_,
      fun y hy => ?_, hParts⟩
    · rw [step_of_closes hEffect, leave, hPlain, plain_write]
      rfl
    · rw [step_of_closes hEffect, leave, hOwn, only_write _ hMark, if_pos rfl]
      rfl
    · rw [only_write _ hMark, if_neg (Ne.symm hy)]
      exact hOthers y hy
  | target name | task name =>
    refine ⟨s.drop, hSound.drop, ?_, ?_, hOthers, hParts⟩
    · rw [step_of_closes hEffect, leave, hPlain]
      rfl
    · rw [step_of_closes hEffect, leave, hOwn]
      rfl

/-- What an event adds goes to the innermost open project, which is one of its build. -/
theorem exists_takes_stays (hSound : s.Sound) (hEffect : e.kind.effect = .stays)
    (hProject : Event.ownsProject x (openParts s.frames) = true)
    (hSame : amendment (s.only x).frames e = amendment s.plain.frames e) :
    ∃ s', s.Takes x e s' := by
  have hOwn : innermost (s.only x).frames =
      (innermost s.plain.frames).map (Marked.rank x s.entries) := by
    rw [Shared.only, innermost_map_renumber, innermost_own hProject]
    rfl
  have hParts : openParts s.frames = Event.advance x (openParts s.frames) e := by
    rw [Event.advance, hEffect]
  cases hInnermost : innermost s.plain.frames with
  | none =>
    refine ⟨s, hSound, ?_, ?_, fun _ _ => rfl, hParts⟩
    · rw [step_of_stays hEffect, amend, hInnermost]
    · rw [step_of_stays hEffect, amend, hOwn, hInnermost]
      rfl
  | some k =>
    have hMark := hSound x k (mem_of_innermost hProject hInnermost)
    refine ⟨s.write k (amendment s.plain.frames e), hSound.write k _, ?_, ?_, fun y hy => ?_,
      hParts⟩
    · rw [step_of_stays hEffect, amend, hInnermost, plain_write]
    · rw [step_of_stays hEffect, amend, hOwn, hInnermost, only_write _ hMark, if_pos rfl, hSame]
      rfl
    · rw [only_write _ hMark, if_neg (Ne.symm hy)]

/-- An event that adds nothing. -/
theorem takes_of_amendment_eq (hSound : s.Sound) (hEffect : e.kind.effect = .stays)
    (hNothing : ∀ frames b, amendment frames e b = b) (x : ι) : s.Takes x e s where
  sound := hSound
  plain := by
    rw [step_of_stays hEffect, funext (hNothing s.plain.frames), amend_id]
  own := by
    rw [step_of_stays hEffect, funext (hNothing (s.only x).frames), amend_id]
  others _ _ := rfl
  parts := by
    rw [Event.advance, hEffect]

-- ---------------------------------------------------------------------------
-- Events
-- ---------------------------------------------------------------------------

/-- An event that finishes the innermost part is taken by its build when the part is one of its
own. -/
theorem exists_takes_finished (hSound : s.Sound) (hEffect : e.kind.effect = .closes)
    (hTop : (openParts s.frames).head?.any (fun part => part.1 = x) = true) :
    ∃ s', s.Takes x e s' := by
  cases hFrames : s.frames with
  | nil =>
    rw [hFrames] at hTop
    cases hTop
  | cons f rest =>
    obtain ⟨y, frame⟩ := f
    rw [hFrames] at hTop
    obtain rfl : y = x := of_decide_eq_true hTop
    exact exists_takes_closes hSound hFrames hEffect

/-- A command line that names its task is the same in the ledger of its build. -/
theorem callOf_only (hName : e.taskName.plain ≠ "")
    (hProject : Event.ownsProject x (openParts s.frames) = true)
    (hTargets : Event.ownsTargets x (openParts s.frames) = true) :
    callOf (s.only x).frames e = callOf s.plain.frames e := by
  rw [callOf, callOf, if_neg hName, if_neg hName, Shared.only, openTargets_map_renumber,
    openTargets_own hProject hTargets]
  rfl

/-- A message is taken by its build, also if it carries a command line: the project and the targets
around it are those of the build, and its task it names itself. -/
theorem exists_takes_message (hSound : s.Sound) (hEffect : e.kind.effect = .stays)
    (hAmendment : ∀ frames b, amendment frames e b =
      if e.isCommandLine then b.addCall (callOf frames e) else b)
    (hFits : (!e.isCommandLine || (Event.ownsProject x (openParts s.frames) &&
      Event.ownsTargets x (openParts s.frames))) = true)
    (hNamed : (!e.isCommandLine || e.taskName.plain != "") = true) : ∃ s', s.Takes x e s' := by
  cases hLine : e.isCommandLine with
  | false =>
    refine ⟨s, takes_of_amendment_eq hSound hEffect (fun frames b => ?_) x⟩
    rw [hAmendment, hLine, if_neg Bool.false_ne_true]
  | true =>
    rw [hLine, Bool.not_true, Bool.false_or, Bool.and_eq_true] at hFits
    rw [hLine, Bool.not_true, Bool.false_or, bne_iff_ne] at hNamed
    refine exists_takes_stays hSound hEffect hFits.1 (funext fun b => ?_)
    rw [hAmendment, hAmendment, callOf_only hNamed hFits.1 hFits.2]

/-- A report is taken by its build when the innermost project is one of its own, or when it reports
nothing. -/
theorem exists_takes_data (hSound : s.Sound) (hEffect : e.kind.effect = .stays)
    (hAmendment : ∀ frames b, amendment frames e b = b.addData e)
    (hFits : ((e.properties.isEmpty && e.items.isEmpty) ||
      Event.ownsProject x (openParts s.frames)) = true) : ∃ s', s.Takes x e s' := by
  rcases Bool.or_eq_true _ _ ▸ hFits with hEmpty | hProject
  · rw [Bool.and_eq_true, List.isEmpty_iff, List.isEmpty_iff] at hEmpty
    refine ⟨s, takes_of_amendment_eq hSound hEffect (fun frames b => ?_) x⟩
    rw [hAmendment, Entry.addData, hEmpty.1, hEmpty.2, List.append_nil, List.append_nil]
  · refine exists_takes_stays hSound hEffect hProject (funext fun b => ?_)
    rw [hAmendment, hAmendment]

/-- An event that comes while parts of its build are open is taken for its build. -/
theorem exists_takes (hSound : s.Sound) (hFits : Event.fits x (openParts s.frames) e = true)
    (hNamed : e.namesTask = true) : ∃ s', s.Takes x e s' := by
  unfold Event.fits at hFits
  unfold Event.namesTask at hNamed
  cases hKind : e.kind with
  | projectStarted | targetStarted | taskStarted =>
    exact ⟨_, takes_opens hSound x (by rw [hKind]; rfl)⟩
  | projectFinished | targetFinished | taskFinished =>
    rw [hKind] at hFits
    exact exists_takes_finished hSound (by rw [hKind]; rfl) hFits
  | message | warning | error =>
    rw [hKind] at hFits hNamed
    exact exists_takes_message hSound (by rw [hKind]; rfl)
      (fun _ _ => by rw [amendment, hKind]) hFits hNamed
  | custom | status =>
    rw [hKind] at hFits
    exact exists_takes_data hSound (by rw [hKind]; rfl) (fun _ _ => by rw [amendment, hKind]) hFits
  | buildStarted =>
    refine ⟨s, takes_of_amendment_eq hSound (by rw [hKind]; rfl) (fun _ _ => ?_) x⟩
    rw [amendment, hKind]
  | buildFinished =>
    rw [hKind] at hFits
    cases hFits

/-- Events that come while parts of their builds are open make up the ledgers of their builds. -/
theorem exists_run {events : List (ι × Event)} (hSound : s.Sound)
    (hPaired : Event.paired (openParts s.frames) events = true)
    (hNamed : ∀ e ∈ events, e.2.namesTask = true) :
    ∃ s' : Shared ι, s'.plain = s.plain.run (events.map (·.2)) ∧
      ∀ x, s'.only x = (s.only x).run (Marked.own x events) := by
  induction events generalizing s with
  | nil => exact ⟨s, rfl, fun _ => rfl⟩
  | cons xe rest ih =>
    obtain ⟨x, e⟩ := xe
    rw [Event.paired, Bool.and_eq_true] at hPaired
    rw [List.forall_mem_cons] at hNamed
    obtain ⟨s₁, hTakes⟩ := exists_takes hSound hPaired.1 hNamed.1
    obtain ⟨s', hPlain, hOnly⟩ := ih hTakes.sound (hTakes.parts ▸ hPaired.2) hNamed.2
    refine ⟨s', ?_, fun y => ?_⟩
    · rw [hPlain, hTakes.plain]
      rfl
    · rw [hOnly, Marked.own_cons]
      by_cases hy : x = y
      · subst hy
        rw [if_pos rfl, hTakes.own]
        rfl
      · rw [if_neg hy, hTakes.others y (Ne.symm hy)]

end Shared

end Ledger

end BuildDigest
