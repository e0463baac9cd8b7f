import BuildDigest.Proofs.Processor.Digest

/-!
# Observers and the end of the build

A processor hands an event to its observers before it does anything else, and goes on
whatever they do. So what the observers are called with depends on the stream and on
nothing else, whether the events are arranged as a tree or not. The end of the build is
noted by the assembly of the tree: a processor that only observes never sees it.

* `Processor.rounds` — every event to every observer.
* `Assembly.ended_step`, `Assembly.ended_steps` — which events end the build.
* `Processor.exists_delivered_eq` — the deliveries of any stream, up to a fault.
* `Processor.processAll_observed` — a stream taken with a tree and without one.
-/

namespace BuildDigest

namespace Event

/-- Whether an event is the end of the build. -/
def endsBuild (e : Event) : Bool :=
  e.kind = .buildFinished

end Event

-- ---------------------------------------------------------------------------
-- Which events end the build
-- ---------------------------------------------------------------------------

namespace Assembly

variable {a a' : Assembly} {e : Event}

theorem ended_current (a : Assembly) : a.current.1.ended = a.ended := by
  unfold current
  split <;> rfl

theorem ended_openNode (a : Assembly) (n : Node) : (a.openNode n).1.ended = a.ended :=
  ended_current a

theorem ended_addNode (a : Assembly) (n : Node) : (a.addNode n).ended = a.ended :=
  ended_current a

/-- A report does not end the build. -/
theorem ended_addData {index : Nat} (h : a.addData index e = .ok a') : a'.ended = a.ended := by
  unfold addData at h
  split at h
  · cases h
  · split at h
    · cases h
    · cases h
      rfl

/-- A project that starts does not end the build. -/
theorem ended_startProject (h : a.startProject e = .ok a') : a'.ended = a.ended := by
  unfold startProject at h
  split at h
  · cases h
  · rename_i file _
    have hOpen := ended_openNode a
      { kind := .project, name := .text (Path.fileName file), projectFile := .text file }
    exact (ended_addData h).trans hOpen

theorem ended_closeNode (a : Assembly) (e : Event) : (a.closeNode e).ended = a.ended := by
  unfold closeNode
  split <;> rfl

/-- A message does not end the build. -/
theorem ended_addMessage (h : a.addMessage e = .ok a') : a'.ended = a.ended := by
  unfold addMessage at h
  split at h
  · simp only at h
    split at h
    · cases h
    · cases h
      rw [ended_addNode, ended_current]
  · cases h
    exact ended_addNode a _

/-- Late data does not end the build. -/
theorem ended_addLate (h : a.addLate e = .ok a') : a'.ended = a.ended := by
  unfold addLate at h
  split at h
  · cases h
    rfl
  · simp only at h
    split at h
    · cases h
    · cases h
      exact ended_current a
    · exact (ended_addData h).trans (ended_current a)

/-- Only the end of the build sets the mark, and nothing takes it back. -/
theorem ended_step (h : a.step e = .ok a') : a'.ended = (a.ended || e.endsBuild) := by
  unfold step at h
  unfold Event.endsBuild
  cases hKind : e.kind with
  | buildFinished =>
    rw [hKind] at h
    cases h
    simp [endBuild]
  | buildStarted =>
    rw [hKind] at h
    cases h
    simp [ended_current]
  | projectStarted =>
    rw [hKind] at h
    simp [ended_startProject h]
  | targetStarted | taskStarted =>
    rw [hKind] at h
    cases h
    simp [ended_openNode]
  | projectFinished | targetFinished | taskFinished =>
    rw [hKind] at h
    cases h
    simp [ended_closeNode]
  | message | warning | error =>
    rw [hKind] at h
    simp [ended_addMessage h]
  | custom | status =>
    rw [hKind] at h
    simp [ended_addLate h]

/-- After a stream the mark is set when it was before or an event of the stream set it. -/
theorem ended_steps {events : List Event} (h : a.steps events = .ok a') :
    a'.ended = (a.ended || events.any Event.endsBuild) := by
  induction events generalizing a with
  | nil =>
    cases h
    simp
  | cons e rest ih =>
    rw [steps] at h
    cases hStep : a.step e with
    | error fault =>
      rw [hStep] at h
      cases h
    | ok a₁ =>
      rw [hStep] at h
      rw [ih h, ended_step hStep, List.any_cons, Bool.or_assoc]

end Assembly

namespace Processor

variable {p : Processor}

-- ---------------------------------------------------------------------------
-- Deliveries
-- ---------------------------------------------------------------------------

/-- The deliveries of events in order, each to every observer in turn. -/
def rounds (observers : List Observer) (events : List Event) : List Delivery :=
  events.flatMap fun e => deliveries e 0 observers

/-- What is delivered to the observers from a place on is not delivered to the ones before it. -/
theorem filter_deliveries_of_lt {k n : Nat} (h : k < n) (e : Event) (observers : List Observer) :
    (deliveries e n observers).filter (·.observer = k) = [] := by
  induction observers generalizing n with
  | nil => rfl
  | cons o rest ih =>
    have hOther : ¬ n = k := by omega
    simp [deliveries, hOther, ih (Nat.lt_succ_of_lt h)]

/-- Among the deliveries of an event, one is to a given observer. -/
theorem filter_deliveries {k : Nat} {o : Observer} {observers : List Observer}
    (h : observers[k]? = some o) (e : Event) (n : Nat) :
    (deliveries e n observers).filter (·.observer = n + k) = [⟨n + k, e, failureOf o e⟩] := by
  induction observers generalizing n k with
  | nil => simp at h
  | cons o' rest ih =>
    cases k with
    | zero =>
      obtain rfl : o' = o := by simpa using h
      have hLater := filter_deliveries_of_lt (Nat.lt_succ_self n) e rest
      simp [deliveries, hLater]
    | succ k =>
      have hRest := ih (by simpa using h) (n + 1)
      rw [show n + 1 + k = n + (k + 1) by omega] at hRest
      have hOther : ¬ n = n + (k + 1) := by omega
      simp [deliveries, hRest]

/-- Each observer gets every event once, in order, and fails where it fails. -/
theorem filter_rounds {k : Nat} {o : Observer} {observers : List Observer}
    (h : observers[k]? = some o) (events : List Event) :
    (rounds observers events).filter (·.observer = k) =
      events.map fun e => ⟨k, e, failureOf o e⟩ := by
  have hOne (e : Event) := filter_deliveries h e 0
  simp only [Nat.zero_add] at hOne
  rw [rounds, List.filter_flatMap]
  simp only [hOne]
  exact List.flatMap_pure_eq_map _ events

/-- What an event changes apart from the tree, whether the tree can take it or not. -/
theorem process_eq (p : Processor) (e : Event) :
    (p.process e).1.observers = p.observers ∧
      (p.process e).1.delivered = (deliveries e 0 p.observers).reverse ++ p.delivered := by
  unfold process
  cases hAssembly : (p.deliver e).assembly with
  | none =>
    simp only [hAssembly]
    exact ⟨rfl, rfl⟩
  | some a =>
    cases hStep : a.step e with
    | error fault =>
      simp only [hAssembly, hStep]
      exact ⟨rfl, rfl⟩
    | ok a' =>
      simp only [hAssembly, hStep]
      exact ⟨rfl, rfl⟩

/-- The events of a stream are delivered one after the other, up to the first that the tree
cannot take, that one included. -/
theorem exists_delivered_eq (p : Processor) (events : List Event) :
    ∃ taken, taken <+: events ∧ ((p.processAll events).2 = none → taken = events) ∧
      (p.processAll events).1.delivered.reverse =
        p.delivered.reverse ++ rounds p.observers taken := by
  induction events generalizing p with
  | nil => exact ⟨[], List.prefix_rfl, fun _ => rfl, by simp [rounds, processAll]⟩
  | cons e rest ih =>
    rw [processAll]
    cases hProcess : p.process e with
    | mk p' fault =>
      obtain ⟨hObservers, hDelivered⟩ : p'.observers = p.observers ∧
          p'.delivered = (deliveries e 0 p.observers).reverse ++ p.delivered := by
        have hEvent := process_eq p e
        rwa [hProcess] at hEvent
      cases fault with
      | some fault =>
        refine ⟨[e], ⟨rest, rfl⟩, ?_, ?_⟩
        · intro hNone
          simp at hNone
        · show p'.delivered.reverse = _
          simp [hDelivered, rounds]
      | none =>
        obtain ⟨taken, hPrefix, hAll, hRest⟩ := ih p'
        refine ⟨e :: taken, List.cons_prefix_cons.mpr ⟨rfl, hPrefix⟩, ?_, ?_⟩
        · exact fun hNone => by rw [hAll hNone]
        · show (p'.processAll rest).1.delivered.reverse = _
          rw [hRest, hObservers, hDelivered]
          simp [rounds]

-- ---------------------------------------------------------------------------
-- With a tree and without one
-- ---------------------------------------------------------------------------

/-- A processor takes every stream, whether it arranges the events as a tree or only observes. -/
theorem exists_processAll_idle (cwd project : String) (settings : Settings)
    (observers : List Observer) {events : List Event} (hTextual : ∀ e ∈ events, e.Textual)
    (analyze : Bool) :
    ∃ p, (idle cwd project settings analyze observers).processAll events = (p, none) ∧
      p.buildEnded = (analyze && events.any Event.endsBuild) ∧ p.assembly.isSome = analyze := by
  cases analyze with
  | false =>
    have hNone : (idle cwd project settings false observers).assembly = none := rfl
    obtain ⟨p, hAll, hStill⟩ := processAll_of_none hNone events
    exact ⟨p, hAll, by simp [buildEnded, hStill], by simp [hStill]⟩
  | true =>
    have hEmpty : (idle cwd project settings true observers).assembly = some {} := rfl
    obtain ⟨a, hSteps, -⟩ := Assembly.represents_start.steps hTextual
    obtain ⟨p, hAll, hAssembly, -⟩ := processAll_eq hEmpty hSteps
    refine ⟨p, hAll, ?_, by simp [hAssembly]⟩
    simp [buildEnded, hAssembly, Assembly.ended_steps hSteps]

/-- A stream is taken with a tree and without one, and either way every observer is handed each
event once, in the order of the stream, whether it fails at it or not. With a tree, the end of the
build is seen when the stream holds it. Without one it is never seen, and there are no results. -/
theorem processAll_observed (cwd project : String) (settings : Settings)
    (observers : List Observer) {events : List Event} (hTextual : ∀ e ∈ events, e.Textual) :
    ∃ after : Bool → Processor,
      (∀ analyze, (start cwd (.text project) settings analyze observers).map (·.processAll events) =
        .ok (after analyze, none)) ∧
      (∀ analyze, (after analyze).delivered.reverse = rounds observers events) ∧
      (∀ analyze k o, observers[k]? = some o →
        (after analyze).delivered.reverse.filter (·.observer = k) =
          events.map fun e => ⟨k, e, failureOf o e⟩) ∧
      ((after true).buildEnded = true ↔ ∃ e ∈ events, e.kind = .buildFinished) ∧
      (after false).buildEnded = false ∧
      (after true).assembly.isSome = true ∧ (after false).assembly = none ∧
      (after false).results = .ok [] := by
  choose after hAll hEnded hTree using
    exists_processAll_idle cwd (Path.normalize cwd project) settings observers hTextual
  have hDelivered (analyze : Bool) : (after analyze).delivered.reverse = rounds observers events := by
    obtain ⟨taken, -, hTaken, hRounds⟩ := exists_delivered_eq
      (idle cwd (Path.normalize cwd project) settings analyze observers) events
    rw [hAll] at hTaken hRounds
    rw [hTaken rfl] at hRounds
    exact hRounds
  have hNoTree : (after false).assembly = none := by simpa using hTree false
  refine ⟨after, ?_, hDelivered, ?_, ?_, ?_, hTree true, hNoTree, ?_⟩
  · intro analyze
    exact congrArg Except.ok (hAll analyze)
  · intro analyze k o ho
    rw [hDelivered]
    exact filter_rounds ho events
  · simp [hEnded, Event.endsBuild]
  · simp [hEnded]
  · simp [results, hNoTree]

/-- The end of a build, handed to an observer that fails and to one that does not. -/
theorem processAll_observed_end :
    let observers : List Observer := [fun _ => .error "boom", fun _ => .ok ()]
    let events : List Event := [{ kind := .buildStarted }, { kind := .buildFinished }]
    (∀ e ∈ events, e.Textual) ∧ ∃ arranged observed : Processor,
      (start "/" (.text "/p/a.csproj") {} true observers).map (·.processAll events) =
        .ok (arranged, none) ∧
      (start "/" (.text "/p/a.csproj") {} false observers).map (·.processAll events) =
        .ok (observed, none) ∧
      arranged.delivered = observed.delivered ∧
      arranged.buildEnded = true ∧ observed.buildEnded = false := by
  intro observers events
  have hTextual : ∀ e ∈ events, e.Textual := by decide
  obtain ⟨after, hAfter, hDelivered, -, hEnded, hNever, -⟩ :=
    processAll_observed "/" "/p/a.csproj" {} observers hTextual
  refine ⟨hTextual, after true, after false, hAfter true, hAfter false, ?_, ?_, hNever⟩
  · exact List.reverse_injective ((hDelivered true).trans (hDelivered false).symm)
  · exact hEnded.mpr ⟨{ kind := .buildFinished }, by simp [events], rfl⟩

end Processor

end BuildDigest
