import BuildDigest.Proofs.Ledger.Basic
import BuildDigest.Proofs.NameMap
import BuildDigest.Proofs.Snapshot.Invocation
import BuildDigest.Snapshot.Facts

/-!
# What is reported on a project

The snapshots of a project, as far as they can be asked, are told from the
entries of a ledger directly: builds with one moniker are one group, properties
are those reported last, the items of a type are those of the last build that has
any, and the compiler call is the last one of the core target or else the first
of all.

* `Analysis` — the project and the settings, all of them texts.
* `Analysis.report` — what is told of the entries.
* `Analysis.observed_snapshots` — it is what the snapshots answer.
-/

namespace BuildDigest

open Ledger (Call Entry)

/-- What a snapshot answers. -/
structure Observation where
  moniker : Value
  property? : String → Option Value
  itemsOf : String → List Item
  arguments : List CommandLine.Argument
  succeeded : Value

def Snapshot.observed (s : Snapshot) : Observation where
  moniker := s.moniker
  property? := s.property?
  itemsOf := s.itemsOf
  arguments := s.arguments
  succeeded := s.succeeded

/-- An analysis of a project with settings that are texts. -/
structure Analysis where
  cwd : String
  path : String
  coreTarget : String
  compilerTasks : List String
  compilerFiles : List String
  buildTree : Bool

namespace Analysis

def settings (q : Analysis) : Settings where
  coreTarget := .text q.coreTarget
  compilerTasks := q.compilerTasks.map .text
  compilerFiles := q.compilerFiles.map .text
  buildTree := .bool q.buildTree

def gathering (q : Analysis) : Gathering where
  cwd := q.cwd
  project := Path.normalize q.cwd q.path
  settings := q.settings

/-- Whether an entry counts: a finished build of the project that reports a moniker. -/
def counts (q : Analysis) (b : Entry) : Bool :=
  b.file != "" && Path.normalize q.cwd b.file == Path.normalize q.cwd q.path &&
    b.outcome.isSome && b.moniker != ""

/-- Whether the name of a task is that of a compiler task, or empty. -/
def isCompilerTask (q : Analysis) (name : String) : Bool :=
  name == "" || (q.compilerTasks.map Text.lower).contains (Text.lower name)

/-- Whether a command line is one of a compiler task, or of no task. -/
def isCompilerCall (q : Analysis) (c : Call) : Bool :=
  q.isCompilerTask c.task

def isCoreCall (q : Analysis) (c : Call) : Bool :=
  c.targets.any fun name => Text.lower name = Text.lower q.coreTarget

/-- The compiler call that counts: the last of the core target, or else the first. Blank lines are
no calls. -/
def chosen (q : Analysis) (calls : List Call) : Option Call :=
  let lines := calls.filter fun c => q.isCompilerCall c && Text.strip c.text != ""
  (lines.filter q.isCoreCall).getLast?.or lines.head?

/-- What the builds with one moniker tell together. -/
def answer (q : Analysis) (moniker : String) (group : List Entry) : Observation where
  moniker := .text moniker
  property? name := (Filing.lastValue (group.flatMap (·.properties)) name).map .text
  itemsOf itemType := ((group.filterMap fun b => Filing.group? b.items itemType).getLast?).getD []
  arguments := ((q.chosen (group.flatMap (·.calls))).map fun c => CommandLine.arguments c.text).getD []
  succeeded := .bool (group.all fun b => b.outcome == some true)

def group (q : Analysis) (entries : List Entry) (moniker : String) : List Entry :=
  entries.filter fun b => q.counts b && b.moniker == moniker

/-- The monikers, in the order in which they are first met. -/
def monikers (q : Analysis) (entries : List Entry) : List String :=
  ((entries.filter q.counts).map (·.moniker)).eraseDups

/-- What the entries tell, one answer for each moniker. -/
def report (q : Analysis) (entries : List Entry) : List Observation :=
  (q.monikers entries).map fun moniker => q.answer moniker (q.group entries moniker)

end Analysis

-- ---------------------------------------------------------------------------
-- Tables that are written over
-- ---------------------------------------------------------------------------

namespace Snapshot

/-- Recording properties that are texts is never at fault, and changes only the properties. -/
theorem recordProperties_map_text (s : Snapshot) (pairs : List (String × String)) :
    s.recordProperties (pairs.map fun p => (.text p.1, .text p.2)) =
      ({ s with properties := s.properties.recordAll (pairs.map fun p => (p.1, .text p.2)) },
        none) := by
  have hPairs : pairs.map (fun p => (Value.text p.1, Value.text p.2)) =
      (pairs.map fun p => (p.1, Value.text p.2)).map fun p => (.text p.1, p.2) := by
    rw [List.map_map]
    rfl
  rw [recordProperties, hPairs, NameMap.recordPairs_map_text]

/-- Recording items by types that are texts is never at fault, and changes only the items. -/
theorem recordGroups_map_text (s : Snapshot) (groups : List (String × List Item)) :
    s.recordGroups (groups.map fun group => (.text group.1, group.2)) =
      .ok { s with items := s.items.recordAll groups } := by
  induction groups generalizing s with
  | nil => rfl
  | cons group rest ih =>
    rw [List.map_cons, recordGroups, Value.asText_text]
    exact ih _

end Snapshot

-- ---------------------------------------------------------------------------
-- Compiler calls
-- ---------------------------------------------------------------------------

namespace Analysis

variable (q : Analysis)

/-- Whether a task is a compiler task is decided without a fault, since the settings are texts. -/
theorem isCompilerTask_eq (name : String) :
    q.gathering.settings.isCompilerTask (.text name) = .ok (q.isCompilerTask name) := by
  rw [Settings.isCompilerTask, Value.holds_text, isCompilerTask]
  by_cases hName : name = ""
  · rw [hName]
    rfl
  · have hGiven : (name != "") = true := by simpa using hName
    have hNamed : (name == "") = false := by simpa using hName
    rw [if_pos hGiven, Value.asText_text, hNamed, Bool.false_or]
    exact congrArg (Except.map _) (Value.lowerAll_map_text q.compilerTasks)

theorem coreName_eq : q.gathering.settings.coreName = .ok (Text.lower q.coreTarget) := rfl

/-- The compiler calls of an entry are found without a fault. -/
theorem compilerCalls_eq (calls : List Call) :
    q.gathering.compilerCalls calls = .ok (calls.filter q.isCompilerCall) := by
  induction calls with
  | nil => rfl
  | cons c rest ih =>
    rw [Gathering.compilerCalls, q.isCompilerTask_eq, ih, List.filter_cons, isCompilerCall]
    cases q.isCompilerTask c.task <;> rfl

def keep (arguments : Option (List CommandLine.Argument)) (c : Call) :
    Option (List CommandLine.Argument) :=
  if Text.strip c.text = "" ∨ (arguments.isSome ∧ q.isCoreCall c = false) then arguments
  else some (CommandLine.arguments c.text)

/-- Recording a compiler call changes only which call is kept. -/
theorem recordInvocation_eq (s : Snapshot) (c : Call) :
    s.recordInvocation (.text c.text) (q.isCoreCall c) =
      .ok { s with compilerArguments := q.keep s.compilerArguments c } :=
  s.recordInvocation_text c.text (q.isCoreCall c)

/-- The compiler calls of an entry are recorded in order, each in view of what is kept so far. -/
theorem reportCalls_eq (s : Snapshot) (calls : List Call) :
    q.gathering.reportCalls s calls =
      .ok { s with compilerArguments := calls.foldl q.keep s.compilerArguments } := by
  induction calls generalizing s with
  | nil => rfl
  | cons c rest ih =>
    rw [Gathering.reportCalls, q.coreName_eq, Except.ok_bind, ← isCoreCall,
      q.recordInvocation_eq, Except.ok_bind, ih, List.foldl_cons]

/-- The chosen call is what is kept when the compiler calls are kept one after the other. -/
theorem foldl_keep_none (calls : List Call) :
    (calls.filter q.isCompilerCall).foldl q.keep none =
      (q.chosen calls).map fun c => CommandLine.arguments c.text := by
  have hKeep : q.keep = fun kept c =>
      if (Text.strip c.text != "") = false ∨ (kept.isSome ∧ q.isCoreCall c = false) then kept
      else some (CommandLine.arguments c.text) := by
    funext kept c
    simp only [keep, bne_eq_false_iff_eq]
  have hChosen : q.chosen calls = Snapshot.decisive q.isCoreCall
      ((calls.filter q.isCompilerCall).filter fun c => Text.strip c.text != "") := by
    simp only [chosen, Snapshot.decisive, List.filter_filter, Bool.and_comm]
  rw [hKeep, hChosen]
  exact Snapshot.foldl_decisive q.isCoreCall (fun c => Text.strip c.text != "")
    (fun c => CommandLine.arguments c.text) _

/-- What is kept of the compiler calls among some command lines is the chosen one. -/
theorem foldl_keep (calls more : List Call) :
    (more.filter q.isCompilerCall).foldl q.keep
        ((q.chosen calls).map fun c => CommandLine.arguments c.text) =
      (q.chosen (calls ++ more)).map fun c => CommandLine.arguments c.text := by
  rw [← foldl_keep_none, ← foldl_keep_none, List.filter_append, List.foldl_append]

-- ---------------------------------------------------------------------------
-- Snapshots of groups
-- ---------------------------------------------------------------------------

/-- A snapshot tells what a group of builds with a moniker tells. -/
structure Tells (moniker : String) (group : List Entry) (s : Snapshot) : Prop where
  moniker : s.moniker = .text moniker
  properties : ∀ name, s.properties.get? name =
    (Filing.lastValue (group.flatMap (·.properties)) name).map .text
  items : ∀ itemType, s.items.get? itemType =
    (group.filterMap fun b => Filing.group? b.items itemType).getLast?
  arguments : s.compilerArguments =
    (q.chosen (group.flatMap (·.calls))).map fun c => CommandLine.arguments c.text

/-- The last value of a name in the table of reported properties is the one that was reported
last. -/
theorem lastValue_properties (reports : List (String × String)) (name : String) :
    Filing.lastValue (Filing.properties reports).values name = Filing.lastValue reports name := by
  rw [Filing.lastValue, (Filing.folded_properties reports).getLast?_values
    (Filing.nodup_properties reports), Filing.get?_properties]

/-- A build that reports to a snapshot joins its group. -/
theorem Tells.feedEntry {moniker : String} {group : List Entry} {s : Snapshot}
    (h : q.Tells moniker group s) (b : Entry) :
    ∃ s', q.gathering.feedEntry b s = .ok s' ∧ q.Tells moniker (group ++ [b]) s' ∧
      s'.succeeded = s.succeeded := by
  refine ⟨{ s with
    properties := s.properties.recordAll
      ((Filing.properties b.properties).values.map fun p => (p.1, .text p.2))
    items := s.items.recordAll (Filing.items b.items).values
    compilerArguments := (b.calls.filter q.isCompilerCall).foldl q.keep s.compilerArguments },
    ?_, ⟨h.moniker, ?_, ?_, ?_⟩, rfl⟩
  · rw [Gathering.feedEntry, Snapshot.recordProperties_map_text]
    show (do
      let s ← Snapshot.recordGroups _ _
      let calls ← q.gathering.compilerCalls b.calls
      q.gathering.reportCalls s calls) = _
    rw [Snapshot.recordGroups_map_text, q.compilerCalls_eq]
    exact q.reportCalls_eq _ _
  · intro name
    have hHere : ((((Filing.properties b.properties).values.map fun p => (p.1, Value.text p.2)).filter
        fun p => Text.lower p.1 = Text.lower name).getLast?).map (·.2) =
        (Filing.lastValue b.properties name).map .text := by
      rw [← lastValue_properties, Filing.lastValue, List.filter_map, List.getLast?_map,
        Option.map_map, Option.map_map]
      rfl
    rw [NameMap.get?_recordAll, NameMap.lastUnder?, hHere, h.properties, List.flatMap_append,
      List.flatMap_singleton, Filing.lastValue_append, Option.map_or]
  · intro itemType
    rw [NameMap.get?_recordAll, NameMap.lastUnder?, (Filing.folded_items b.items).getLast?_values
      (Filing.nodup_items b.items), Filing.get?_items, h.items,
      List.filterMap_append, List.getLast?_append]
    cases hGroup : Filing.group? b.items itemType <;> simp [hGroup]
  · rw [h.arguments, q.foldl_keep, List.flatMap_append, List.flatMap_singleton]

/-- What the snapshots of some entries have in common with their groups. -/
structure Gathered (entries : List Entry) (snapshots : Ordered String Snapshot) : Prop where
  nodup : snapshots.keys.Nodup
  keys : snapshots.keys = q.monikers entries
  tells : ∀ moniker s, snapshots.get? moniker = some s →
    q.Tells moniker (q.group entries moniker) s ∧
      s.succeeded = .bool ((q.group entries moniker).all fun b => b.outcome == some true)

theorem gathered_nil : q.Gathered [] .empty where
  nodup := List.nodup_nil
  keys := rfl
  tells _ _ h := by cases h

theorem isWanted_eq (b : Entry) :
    (q.gathering.isWanted b.node && b.outcome.isSome && b.moniker != "") = q.counts b := rfl

/-- One more entry is in the group of its moniker, if it counts. -/
theorem group_concat (entries : List Entry) (b : Entry) (moniker : String) :
    q.group (entries ++ [b]) moniker =
      q.group entries moniker ++ if q.counts b && b.moniker == moniker then [b] else [] := by
  rw [group, List.filter_append, List.filter_singleton, group]
  cases q.counts b && b.moniker == moniker <;> rfl

/-- A moniker is met exactly if its group is not empty. -/
theorem mem_monikers {entries : List Entry} {moniker : String} :
    moniker ∈ q.monikers entries ↔ q.group entries moniker ≠ [] := by
  rw [monikers, List.mem_eraseDups, List.mem_map, group, Ne, List.filter_eq_nil_iff]
  simp only [List.mem_filter, Bool.and_eq_true, beq_iff_eq, not_forall, not_not]
  constructor
  · rintro ⟨b, ⟨hMem, hCounts⟩, hMoniker⟩
    exact ⟨b, hMem, hCounts, hMoniker⟩
  · rintro ⟨b, hMem, hCounts, hMoniker⟩
    exact ⟨b, ⟨hMem, hCounts⟩, hMoniker⟩

/-- One more entry adds its moniker at the end if it counts and the moniker is new. -/
theorem monikers_concat (entries : List Entry) (b : Entry) :
    q.monikers (entries ++ [b]) =
      if q.counts b = true ∧ b.moniker ∉ q.monikers entries then q.monikers entries ++ [b.moniker]
      else q.monikers entries := by
  rw [monikers, List.filter_append, List.map_append, List.eraseDups_append, ← monikers,
    List.filter_singleton]
  have hMem : b.moniker ∈ q.monikers entries ↔
      b.moniker ∈ (entries.filter q.counts).map (·.moniker) := List.mem_eraseDups
  simp only [hMem]
  cases q.counts b with
  | false => simp
  | true => by_cases hOld : b.moniker ∈ (entries.filter q.counts).map (·.moniker) <;>
      simp [List.removeAll, List.eraseDups_cons, hOld]

/-- The snapshot that a build feeds tells what its group told before. -/
theorem Gathered.credited {entries : List Entry} {snapshots : Ordered String Snapshot}
    (h : q.Gathered entries snapshots) (b : Entry) (hFinished : b.outcome.isSome = true) :
    ∃ s, q.gathering.credited snapshots b.moniker b.node = .ok s ∧
      q.Tells b.moniker (q.group entries b.moniker) s ∧
      s.succeeded = .bool ((q.group entries b.moniker).all (fun b => b.outcome == some true) &&
        b.outcome == some true) := by
  have hHolds : b.node.succeeded.holds = (b.outcome == some true) := by
    obtain ⟨ok, hOk⟩ := Option.isSome_iff_exists.mp hFinished
    rw [Entry.node, hOk]
    cases ok <;> rfl
  rw [Gathering.credited, hHolds]
  cases hGet : snapshots.get? b.moniker with
  | some s =>
    obtain ⟨hTells, hSucceeded⟩ := h.tells b.moniker s hGet
    refine ⟨_, rfl, ⟨hTells.moniker, hTells.properties, hTells.items, hTells.arguments⟩, ?_⟩
    rw [hSucceeded]
    rfl
  | none =>
    -- no snapshot was there, so no build of the group was met
    have hNew : q.group entries b.moniker = [] := by
      by_contra hSome
      have hMem := (q.mem_monikers).mpr hSome
      rw [← h.keys] at hMem
      obtain ⟨e, he, hKey⟩ := List.mem_map.mp hMem
      rw [Ordered.get?, List.lookup_eq_none_iff] at hGet
      have := hGet e he
      simp [hKey] at this
    have hStart : Snapshot.start (.text q.gathering.project) (.text b.moniker)
        q.gathering.settings.compilerFiles =
          .ok { project := .text q.gathering.project, moniker := .text b.moniker,
                compilerFiles := q.compilerFiles.map Text.lower } :=
      congrArg (Except.map _) (Value.lowerAll_map_text q.compilerFiles)
    rw [hStart, hNew]
    exact ⟨_, rfl, ⟨rfl, fun _ => rfl, fun _ => rfl, rfl⟩, rfl⟩

/-- One more entry joins its group, if it counts. -/
theorem Gathered.visitEntry {entries : List Entry} {snapshots : Ordered String Snapshot}
    (h : q.Gathered entries snapshots) (b : Entry) :
    ∃ snapshots', q.gathering.visitEntry snapshots b = .ok snapshots' ∧
      q.Gathered (entries ++ [b]) snapshots' := by
  cases hCounts : q.counts b with
  | false =>
    -- an entry that does not count is passed over
    refine ⟨snapshots, ?_, h.nodup, ?_, fun moniker s hGet => ?_⟩
    · rw [Gathering.visitEntry]
      split
      · next hBoth =>
        have hMoniker : b.moniker = "" := by
          have hAll := q.isWanted_eq b
          rw [hBoth, hCounts, Bool.true_and] at hAll
          simpa using hAll
        rw [if_pos hMoniker]
      · rfl
    · rw [q.monikers_concat, hCounts, if_neg fun hBoth => Bool.false_ne_true hBoth.1, h.keys]
    · rw [q.group_concat, hCounts, Bool.false_and, if_neg Bool.false_ne_true, List.append_nil]
      exact h.tells moniker s hGet
  | true =>
    have hAll := q.isWanted_eq b
    rw [hCounts, Bool.and_eq_true, Bool.and_eq_true] at hAll
    obtain ⟨⟨hWanted, hFinished⟩, hMoniker⟩ := hAll
    obtain ⟨s, hCredited, hTells, hSucceeded⟩ := h.credited q b hFinished
    obtain ⟨s', hFeed, hTells', hSame⟩ := hTells.feedEntry q b
    refine ⟨snapshots.put b.moniker s', ?_, Ordered.nodup_keys_put h.nodup _ _, ?_,
      fun moniker r hGet => ?_⟩
    · rw [Gathering.visitEntry, hWanted, hFinished, Bool.and_self, if_pos rfl,
        if_neg (by simpa using hMoniker), hCredited]
      show (do
        let s ← q.gathering.feedEntry b s
        return snapshots.put b.moniker s) = _
      rw [hFeed]
      rfl
    · rw [q.monikers_concat, hCounts, ← h.keys]
      by_cases hMem : b.moniker ∈ snapshots.keys
      · rw [if_neg fun hBoth => hBoth.2 hMem, Ordered.keys_put_of_mem hMem]
      · rw [if_pos ⟨rfl, hMem⟩, Ordered.keys_put_of_not_mem hMem]
    · rw [q.group_concat, hCounts, Bool.true_and]
      rw [Ordered.get?_put] at hGet
      -- the snapshots of other monikers stay, and so do their groups
      by_cases hHere : moniker = b.moniker
      · subst hHere
        rw [if_pos rfl] at hGet
        obtain rfl := Option.some.inj hGet
        rw [if_pos (beq_self_eq_true _), List.all_append, hSame, hSucceeded]
        exact ⟨hTells', by simp⟩
      · rw [if_neg hHere] at hGet
        rw [if_neg (by simpa using Ne.symm hHere), List.append_nil]
        exact h.tells moniker r hGet

/-- The snapshots of entries are found without a fault, and tell what their groups tell. The
induction is on the entries from the back, since a later one may spoil what an earlier one told. -/
theorem exists_gathered (entries : List Entry) :
    ∃ snapshots, entries.foldlM q.gathering.visitEntry .empty = .ok snapshots ∧
      q.Gathered entries snapshots := by
  -- snapshots are made and added to in the order of the entries
  induction entries using List.reverseRecOn with
  | nil => exact ⟨.empty, rfl, q.gathered_nil⟩
  | append_singleton entries b ih =>
    obtain ⟨snapshots, hFold, hGathered⟩ := ih
    obtain ⟨snapshots', hVisit, hGathered'⟩ := hGathered.visitEntry q b
    refine ⟨snapshots', ?_, hGathered'⟩
    rw [List.foldlM_append, hFold]
    show List.foldlM q.gathering.visitEntry snapshots [b] = _
    rw [List.foldlM_cons, hVisit]
    rfl

/-- What a snapshot answers is what its group tells, once it is known how the builds of the group
finished. -/
theorem Tells.observed_eq {moniker : String} {group : List Entry} {s : Snapshot}
    (h : q.Tells moniker group s)
    (hSucceeded : s.succeeded = .bool (group.all fun b => b.outcome == some true)) :
    s.observed = q.answer moniker group := by
  rw [Snapshot.observed, answer, h.moniker, hSucceeded, Snapshot.arguments, h.arguments]
  congr 1
  · funext name
    exact h.properties name
  · funext itemType
    rw [Snapshot.itemsOf, h.items]

/-- The snapshots of the entries answer what the entries tell. -/
theorem observed_snapshots (l : Ledger) :
    ∃ snapshots, l.snapshots q.gathering = .ok snapshots ∧
      snapshots.map Snapshot.observed = q.report l.entries := by
  obtain ⟨table, hFold, hGathered⟩ := q.exists_gathered l.entries
  refine ⟨table.values, ?_, ?_⟩
  · rw [Ledger.snapshots, hFold]
    rfl
  · rw [report, ← hGathered.keys, Ordered.keys, Ordered.values, List.map_map, List.map_map]
    refine List.map_congr_left fun e he => ?_
    have hGet : table.get? e.1 = some e.2 := 
      (Ordered.lookup_eq_some_iff_mem hGathered.nodup).mpr he
    obtain ⟨hTells, hSucceeded⟩ := hGathered.tells e.1 e.2 hGet
    exact hTells.observed_eq q hSucceeded

end Analysis

end BuildDigest
