import BuildDigest.Processor
import BuildDigest.Proofs.Assembly.Entries
import BuildDigest.Proofs.Outcome

/-!
# Property values are texts

An event writes its properties as texts, so whatever else a stream of events puts
into a tree, the nodes that stand for properties have texts for values. Nothing is
asked of the events: names, tasks and flags may be values of any sort, and a
stream that ends in a fault leaves such a tree too.

* `Tree.ValuesText` — the property of a tree.
* `Tree.ValuesText.properties` — what is read from such a tree.
* `Assembly.valuesText_step` — one event.
* `Processor.valuesText_processAll` — a stream of events.
-/

namespace BuildDigest

/-- A node that stands for a property has a text for its value. -/
def Node.ValueText (n : Node) : Prop :=
  n.kind = .nameValue → ∃ s, n.value = .text s

theorem Node.valueText_of_kind {n : Node} (h : n.kind ≠ .nameValue) : n.ValueText :=
  fun hKind => absurd hKind h

namespace Tree

variable {t t' : Tree}

/-- All properties have texts for values. -/
def ValuesText (t : Tree) : Prop :=
  ∀ i n, t.row i = some n → n.ValueText

theorem valuesText_empty : empty.ValuesText := by
  intro i n hRow
  simp [row, empty] at hRow

/-- A node that comes with a text for its value, or that is no property, leaves all values texts. -/
theorem ValuesText.add (h : t.ValuesText) (parent : Value) {n : Node} (hn : n.ValueText) :
    (t.add parent n).ValuesText := by
  intro i m hRow
  rw [row_add] at hRow
  split at hRow
  · cases hRow
    exact hn
  · exact h i m hRow

/-- A change in place that leaves values texts. -/
theorem ValuesText.change {f : Node → Node} (hf : Node.Keeps f) (h : t.ValuesText) (i : Nat)
    (hValue : ∀ n, n.ValueText → (f n).ValueText) : (t.change i f).ValuesText := by
  intro j n hRow
  rw [row_change hf] at hRow
  split at hRow
  · obtain ⟨m, hm, rfl⟩ := Option.map_eq_some_iff.mp hRow
    exact hValue m (h j m hm)
  · exact h j n hRow

/-- A folder that comes is no property. -/
theorem ValuesText.ensureFolder (h : t.ValuesText) {place : Value} {name : String} {f : Nat}
    (hFolder : t.ensureFolder place name = .ok (t', f)) : t'.ValuesText := by
  unfold Tree.ensureFolder at hFolder
  split at hFolder
  · cases hFolder
  · cases hFolder
    exact h
  · cases hFolder
    exact h.add place (Node.valueText_of_kind nofun)

-- ---------------------------------------------------------------------------
-- Writing properties and items
-- ---------------------------------------------------------------------------

/-- Properties are written as texts. The induction is on the properties. -/
theorem ValuesText.writeProperties (h : t.ValuesText) (folder : Nat) (known : List (String × Nat))
    (properties : List (String × String)) :
    (writeProperties folder t known (properties.map fun p => (p.1, .text p.2))).ValuesText := by
  induction properties generalizing t known with
  | nil => exact h
  | cons p rest ih =>
    rw [List.map_cons, Tree.writeProperties]
    split
    · next i _ =>
      refine ih (h.change (keeps_setValue (.text p.2)) i ?_) _
      intro n _ _
      exact ⟨p.2, rfl⟩
    · exact ih (h.add _ fun _ => ⟨p.2, rfl⟩) _

/-- Properties that are texts are written, also when a fault ends the writing. -/
theorem ValuesText.setProperties (h : t.ValuesText) (place : Value) (e : Event) :
    (t.setProperties place e.propertiesValue).1.ValuesText := by
  unfold Tree.setProperties
  split
  · split
    · exact h
    · next hFolder =>
      have hGrown := h.ensureFolder hFolder
      split
      · exact hGrown
      · exact hGrown.writeProperties _ _ e.properties
  · exact h

/-- Items and the folders of their types are no properties. -/
theorem ValuesText.fileItems (h : t.ValuesText) (folder : Nat) (items : List Item) :
    (fileItems folder t items).1.ValuesText := by
  induction items generalizing t with
  | nil => exact h
  | cons item rest ih =>
    rw [Tree.fileItems]
    split
    · exact h
    · next hFolder =>
      exact ih ((h.ensureFolder hFolder).add _ (Node.valueText_of_kind (by rintro ⟨⟩)))

theorem ValuesText.addItems (h : t.ValuesText) (place : Value) (items : List Item) :
    (t.addItems place items).1.ValuesText := by
  unfold Tree.addItems
  split
  · exact h
  · split
    · exact h
    · next hFolder => exact (h.ensureFolder hFolder).fileItems _ items

-- ---------------------------------------------------------------------------
-- Reading properties
-- ---------------------------------------------------------------------------

/-- The properties among the children of a node have texts for values. -/
theorem ValuesText.of_mem_childrenAt (h : t.ValuesText) {i : Nat} {n : Node}
    (hn : n ∈ t.childrenAt i) : n.ValueText := by
  unfold childrenAt at hn
  split at hn
  · obtain ⟨j, _, hj⟩ := List.mem_filterMap.mp hn
    exact h j n.bare (row_eq_some_iff.mpr ⟨n, hj, rfl⟩)
  · cases hn

end Tree

namespace Value

variable {α : Type}

/-- What is written into a table, and what was in it, is all that it holds. -/
theorem mem_writeAll {P : α → Prop} {m m' : Table α} {pairs : List (Value × α)}
    (hEntries : ∀ e ∈ m.entries, P e.2.2) (hPairs : ∀ p ∈ pairs, P p.2)
    (h : m.writeAll pairs = .ok m') : ∀ e ∈ m'.entries, P e.2.2 := by
  induction pairs generalizing m with
  | nil =>
    cases h
    exact hEntries
  | cons p rest ih =>
    rw [List.forall_mem_cons] at hPairs
    rw [Table.writeAll] at h
    split at h
    · cases h
    · refine ih ?_ hPairs.2 h
      intro e he
      rcases Ordered.mem_putEntries he with rfl | hOld
      · exact hPairs.1
      · exact hEntries e hOld

/-- What a table lists under its names came as a value. -/
theorem mem_tabulate {P : α → Prop} {pairs rows : List (Value × α)} (hPairs : ∀ p ∈ pairs, P p.2)
    (h : tabulate pairs = .ok rows) : ∀ r ∈ rows, P r.2 := by
  obtain ⟨m, hTable, rfl⟩ := Except.map_eq_ok.mp h
  intro r hr
  obtain ⟨e, he, rfl⟩ := List.mem_map.mp hr
  exact mem_writeAll nofun hPairs hTable e he

end Value

namespace Tree

variable {t : Tree}

/-- The properties that are read have texts for values. -/
theorem ValuesText.properties (h : t.ValuesText) {place : Value} {rows : List (Value × Value)}
    (hRows : t.properties place = .ok rows) : ∀ r ∈ rows, ∃ s, r.2 = .text s := by
  unfold Tree.properties at hRows
  split at hRows
  · cases hRows
  · cases hRows
    exact nofun
  · refine @Value.mem_tabulate _ (fun v => ∃ s, v = .text s) _ _ ?_ hRows
    intro p hp
    obtain ⟨n, hn, rfl⟩ := List.mem_map.mp hp
    obtain ⟨hMem, hKind⟩ := List.mem_filter.mp hn
    obtain ⟨s, hs⟩ := h.of_mem_childrenAt hMem (of_decide_eq_true hKind)
    exact ⟨s, by rw [hs, Value.orEmpty_text]⟩

end Tree

-- ---------------------------------------------------------------------------
-- Streams of events
-- ---------------------------------------------------------------------------

namespace Assembly

variable {a a' : Assembly} {e : Event}

/-- The root is no property. -/
theorem valuesText_current (h : a.tree.ValuesText) : a.current.1.tree.ValuesText := by
  unfold current
  split
  · exact h
  · show (if a.tree.size = 0 then _ else _ : Tree).ValuesText
    split
    · exact h.add _ (Node.valueText_of_kind nofun)
    · exact h

theorem valuesText_openNode (h : a.tree.ValuesText) {n : Node} (hn : n.ValueText) :
    (a.openNode n).1.tree.ValuesText :=
  (valuesText_current h).add _ hn

theorem valuesText_addNode (h : a.tree.ValuesText) {n : Node} (hn : n.ValueText) :
    (a.addNode n).tree.ValuesText :=
  (valuesText_current h).add _ hn

theorem valuesText_finishNode (h : a.tree.ValuesText) (i : Nat) (e : Event) :
    (a.finishNode i e).tree.ValuesText :=
  h.change (Tree.keeps_finishing e.succeeded) i fun _ hn => hn

/-- What is reported on a project leaves all values texts. -/
theorem valuesText_addData (h : a.tree.ValuesText) {i : Nat} (hData : a.addData i e = .ok a') :
    a'.tree.ValuesText := by
  unfold addData at hData
  have hProperties := h.setProperties (.int i) e
  split at hData
  · cases hData
  · next hSet =>
    rw [hSet] at hProperties
    have hItems := hProperties.addItems (.int i) e.items
    split at hData
    · cases hData
    · next hAdd =>
      rw [hAdd] at hItems
      cases hData
      exact hItems

/-- A project that starts leaves all values texts. -/
theorem valuesText_startProject (h : a.tree.ValuesText) (hStart : a.startProject e = .ok a') :
    a'.tree.ValuesText := by
  unfold startProject at hStart
  split at hStart
  · cases hStart
  · refine valuesText_addData (valuesText_openNode h ?_) hStart
    exact Node.valueText_of_kind nofun

/-- What finishes leaves all values texts. -/
theorem valuesText_closeNode (h : a.tree.ValuesText) (e : Event) :
    (a.closeNode e).tree.ValuesText := by
  unfold closeNode
  split
  · exact valuesText_finishNode h _ e
  · exact h

/-- A message is no property. -/
theorem valuesText_addMessage (h : a.tree.ValuesText) (hMessage : a.addMessage e = .ok a') :
    a'.tree.ValuesText := by
  unfold addMessage at hMessage
  split at hMessage
  · have hCurrent := valuesText_current h
    cases hOpen : a.current with
    | mk b i =>
      rw [hOpen] at hCurrent
      simp only [hOpen] at hMessage
      split at hMessage
      · cases hMessage
      · cases hMessage
        exact valuesText_addNode hCurrent (Node.valueText_of_kind nofun)
  · cases hMessage
    exact valuesText_addNode h (Node.valueText_of_kind nofun)

/-- Late data leaves all values texts. -/
theorem valuesText_addLate (h : a.tree.ValuesText) (hLate : a.addLate e = .ok a') :
    a'.tree.ValuesText := by
  unfold addLate at hLate
  split at hLate
  · cases hLate
    exact h
  · have hCurrent := valuesText_current h
    cases hOpen : a.current with
    | mk b i =>
      rw [hOpen] at hCurrent
      simp only [hOpen] at hLate
      split at hLate
      · cases hLate
      · cases hLate
        exact hCurrent
      · exact valuesText_addData hCurrent hLate

/-- An event keeps the values of properties texts. -/
theorem valuesText_step (h : a.tree.ValuesText) (hStep : a.step e = .ok a') :
    a'.tree.ValuesText := by
  cases hKind : e.kind with
  | buildStarted =>
    rw [step, hKind] at hStep
    cases hStep
    exact valuesText_current h
  | buildFinished =>
    rw [step, hKind] at hStep
    cases hStep
    exact valuesText_finishNode (valuesText_current h) 0 e
  | projectStarted =>
    rw [step, hKind] at hStep
    exact valuesText_startProject h hStep
  | targetStarted | taskStarted =>
    rw [step, hKind] at hStep
    cases hStep
    exact valuesText_openNode h (Node.valueText_of_kind nofun)
  | projectFinished | targetFinished | taskFinished =>
    rw [step, hKind] at hStep
    cases hStep
    exact valuesText_closeNode h e
  | message | warning | error =>
    rw [step, hKind] at hStep
    exact valuesText_addMessage h hStep
  | custom | status =>
    rw [step, hKind] at hStep
    exact valuesText_addLate h hStep

end Assembly

namespace Processor

variable {p : Processor}

/-- The tree of a processor, if it has one, has texts for the values of properties. -/
def ValuesText (p : Processor) : Prop :=
  ∀ a, p.assembly = some a → a.tree.ValuesText

/-- A processor that has met no event has a tree of texts, or none. -/
theorem valuesText_idle (cwd project : String) (settings : Settings) (analyze : Bool)
    (observers : List Observer) : (idle cwd project settings analyze observers).ValuesText := by
  intro a ha
  unfold idle at ha
  cases analyze with
  | true =>
    obtain rfl := Option.some.inj ha
    exact Tree.valuesText_empty
  | false => cases ha

/-- An event leaves the values of a processor texts, and the settings it gathers by, also if the
event is at fault. -/
theorem valuesText_process (h : p.ValuesText) (e : Event) :
    (p.process e).1.ValuesText ∧ (p.process e).1.gathering = p.gathering := by
  unfold process
  cases hAssembly : (p.deliver e).assembly with
  | none =>
    simp only [hAssembly]
    exact ⟨h, rfl⟩
  | some a =>
    cases hStep : a.step e with
    | error fault =>
      simp only [hAssembly, hStep]
      exact ⟨h, rfl⟩
    | ok a' =>
      simp only [hAssembly, hStep]
      refine ⟨?_, rfl⟩
      intro b hb
      obtain rfl := Option.some.inj hb
      exact Assembly.valuesText_step (h a hAssembly) hStep

/-- A stream of events keeps the values of properties texts, whether or not it ends in a fault. -/
theorem valuesText_processAll (h : p.ValuesText) (events : List Event) :
    (p.processAll events).1.ValuesText ∧ (p.processAll events).1.gathering = p.gathering := by
  induction events generalizing p with
  | nil => exact ⟨h, rfl⟩
  | cons e rest ih =>
    obtain ⟨hValues, hGathering⟩ := valuesText_process h e
    rw [processAll]
    cases hProcess : p.process e with
    | mk p' fault =>
      rw [hProcess] at hValues hGathering
      cases fault with
      | some fault => exact ⟨hValues, hGathering⟩
      | none =>
        obtain ⟨hRest, hSame⟩ := ih hValues
        exact ⟨hRest, hSame.trans hGathering⟩

end Processor

end BuildDigest
