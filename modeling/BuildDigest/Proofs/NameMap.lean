import BuildDigest.Item.Basic
import BuildDigest.Proofs.Folders.Reports
import BuildDigest.Proofs.Ordered

/-!
# Names without case keep their last writes

A map over names without case that is written by a list of pairs has one entry
for each name, at the place where the name came first, with the spelling and the
value that came last. Nothing else of the list is kept, so the entries of a map
stand for the whole list that wrote it, whatever is written after them.

* `NameMap.KeepsLast` — what a map keeps of a list; `keepsLast_ofList` — it does.
* `NameMap.Tidy` — the maps that lists write; they are written by their own entries.
* `NameMap.last_write_wins` — all laws together, also for maps that are made from values.
-/

namespace BuildDigest.NameMap

variable {α : Type} {m : NameMap α}

-- ---------------------------------------------------------------------------
-- Maps that are written by their own entries
-- ---------------------------------------------------------------------------

/-- Every name stands under itself in lower case, and under nothing twice. -/
structure Tidy (m : NameMap α) : Prop where
  nodup : m.folded.keys.Nodup
  folded : Filing.Folded m.folded

theorem tidy_empty : (empty : NameMap α).Tidy :=
  ⟨List.nodup_nil, nofun⟩

theorem Tidy.record (h : m.Tidy) (name : String) (value : α) : (m.record name value).Tidy :=
  ⟨Ordered.nodup_keys_put h.nodup _ _, h.folded.put rfl⟩

theorem Tidy.recordAll (h : m.Tidy) (pairs : List (String × α)) : (m.recordAll pairs).Tidy := by
  induction pairs generalizing m with
  | nil => exact h
  | cons p pairs ih => exact ih (h.record p.1 p.2)

theorem tidy_ofList (pairs : List (String × α)) : (ofList pairs).Tidy :=
  tidy_empty.recordAll pairs

/-- Entries that are written after others under names of their own come behind them. -/
theorem recordAll_entries (entries more : List (String × String × α))
    (hNodup : ((entries ++ more).map (·.1)).Nodup)
    (hFolded : ∀ e ∈ more, e.1 = Text.lower e.2.1) :
    recordAll ⟨⟨entries⟩⟩ (more.map (·.2)) = ⟨⟨entries ++ more⟩⟩ := by
  induction more generalizing entries with
  | nil =>
    rw [List.append_nil]
    rfl
  | cons e more ih =>
    rw [List.forall_mem_cons] at hFolded
    have hNew : Text.lower e.2.1 ∉ entries.map (·.1) := by
      rw [← hFolded.1]
      intro hMem
      rw [List.map_append, List.nodup_append] at hNodup
      exact hNodup.2.2 e.1 hMem e.1 (List.mem_cons_self ..) rfl
    have hRecord : record ⟨⟨entries⟩⟩ e.2.1 e.2.2 = ⟨⟨entries ++ [e]⟩⟩ := by
      have hPut := Ordered.put_of_not_mem (m := ⟨entries⟩) hNew e.2
      rw [← hFolded.1] at hPut
      rw [record, ← hFolded.1]
      exact congrArg (fun es => NameMap.mk ⟨es⟩) hPut
    have hRest := ih (entries ++ [e]) (by simpa using hNodup) hFolded.2
    rw [List.append_assoc, List.singleton_append] at hRest
    rw [List.map_cons, NameMap.recordAll, List.foldl_cons, hRecord]
    exact hRest

/-- A tidy map is written by its own names and values. -/
theorem Tidy.ofList_entries (h : m.Tidy) : ofList m.entries = m :=
  recordAll_entries [] m.folded.entries h.nodup h.folded

theorem eq_empty_of_isEmpty (h : m.isEmpty = true) : m = empty := by
  have hEntries : m.folded.entries = [] := by
    rw [isEmpty, List.isEmpty_iff] at h
    exact List.map_eq_nil_iff.mp h
  have hFolded : m.folded = Ordered.mk m.folded.entries := rfl
  rw [hEntries] at hFolded
  exact congrArg NameMap.mk hFolded

/-- The entries of a tidy map are what looking up their names gives. -/
theorem Tidy.get?_of_mem (h : m.Tidy) {e : String × α} (he : e ∈ m.entries) :
    m.get? e.1 = some e.2 := by
  obtain ⟨f, hf, rfl⟩ := List.mem_map.mp he
  have hLookup : m.folded.get? f.1 = some f.2 :=
    (Ordered.lookup_eq_some_iff_mem h.nodup).mpr hf
  rw [get?, ← h.folded f hf, hLookup, Option.map_some]

-- ---------------------------------------------------------------------------
-- Last writes
-- ---------------------------------------------------------------------------

/-- The pair that came last under a name in lower case, in any spelling. -/
def lastUnder? (pairs : List (String × α)) (folded : String) : Option (String × α) :=
  (pairs.filter fun p => Text.lower p.1 = folded).getLast?

/-- A map keeps of every name the pair that came last, at the place of the first. -/
structure KeepsLast (m : NameMap α) (pairs : List (String × α)) : Prop where
  entries : m.entries.map some =
    (pairs.map fun p => Text.lower p.1).eraseDups.map (lastUnder? pairs)
  get? : ∀ q, m.get? q = (lastUnder? pairs (Text.lower q)).map (·.2)
  contains : ∀ q, m.contains q = true ↔ ∃ p ∈ pairs, Text.lower p.1 = Text.lower q
  /-- The entries are what looking up the names gives. -/
  items : ∀ e ∈ m.entries, m.get? e.1 = some e.2

/-- A name has a last pair exactly if it is among the names of the pairs. -/
theorem isSome_lastUnder? {pairs : List (String × α)} {folded : String} :
    (lastUnder? pairs folded).isSome = true ↔ ∃ p ∈ pairs, Text.lower p.1 = folded := by
  simp [lastUnder?]

/-- Of the values that are written under a name the last is read. -/
theorem get?_recordAll (m : NameMap α) (pairs : List (String × α)) (q : String) :
    (m.recordAll pairs).get? q =
      ((lastUnder? pairs (Text.lower q)).map (·.2)).or (m.get? q) := by
  unfold lastUnder?
  induction pairs using List.reverseRecOn with
  | nil => rfl
  | append_singleton pairs p ih =>
    rw [recordAll, List.foldl_concat, ← recordAll, get?_record, List.filter_append, ih]
    by_cases hp : Text.lower q = Text.lower p.1
    · simp [hp]
    · have hp' : ¬ Text.lower p.1 = Text.lower q := fun hEq => hp hEq.symm
      simp [hp, hp']

/-- What is read under a name is the value of the last pair with that name. -/
theorem get?_ofList (pairs : List (String × α)) (q : String) :
    (ofList pairs).get? q = (lastUnder? pairs (Text.lower q)).map (·.2) := by
  have hNone : (empty : NameMap α).get? q = none := rfl
  rw [ofList, get?_recordAll, hNone, Option.or_none]

/-- Pairs under their names in lower case. -/
def folds (pairs : List (String × α)) : List (String × String × α) :=
  pairs.map fun p => (Text.lower p.1, p)

/-- A map of names is a map of folded names to the spelling and the value. -/
theorem folded_ofList (pairs : List (String × α)) :
    (ofList pairs).folded = Ordered.ofList (folds pairs) := by
  induction pairs using List.reverseRecOn with
  | nil => rfl
  | append_singleton pairs p ih =>
    rw [ofList, recordAll, List.foldl_concat, ← recordAll, ← ofList, folds, List.map_append,
      List.map_singleton, Ordered.ofList_append_singleton, ← folds, ← ih]
    rfl

theorem latest?_folds (pairs : List (String × α)) (folded : String) :
    latest? (folds pairs) folded = lastUnder? pairs folded := by
  rw [latest?, folds, List.filter_map, List.getLast?_map, Option.map_map, lastUnder?]
  exact congrFun Option.map_id _

/-- The entries stand in the order in which their names came first, each as its last pair spells and
values it. -/
theorem entries_ofList (pairs : List (String × α)) :
    (ofList pairs).entries =
      (pairs.map fun p => Text.lower p.1).eraseDups.filterMap (lastUnder? pairs) := by
  have hNames : (folds pairs).map (·.1) = pairs.map fun p => Text.lower p.1 := by
    rw [folds, List.map_map]
    rfl
  rw [entries, folded_ofList, Ordered.values, Ordered.entries_ofList, latestAll, hNames,
    List.map_filterMap]
  refine List.filterMap_congr fun folded _ => ?_
  rw [latest?_folds, Option.map_map]
  exact congrFun Option.map_id _

/-- A map keeps the last writes of the list that writes it. -/
theorem keepsLast_ofList (pairs : List (String × α)) : (ofList pairs).KeepsLast pairs where
  entries := by
    -- every name has a last write, so none is left out
    rw [entries_ofList, List.map_filterMap_some_eq_filter_map_isSome, List.filter_eq_self]
    intro last hLast
    obtain ⟨folded, hFolded, rfl⟩ := List.mem_map.mp hLast
    rw [List.mem_eraseDups, List.mem_map] at hFolded
    exact isSome_lastUnder?.mpr hFolded
  get? := get?_ofList pairs
  contains q := by
    rw [contains_eq_isSome, get?_ofList, Option.isSome_map, isSome_lastUnder?]
  items _ := (tidy_ofList pairs).get?_of_mem

/-- Adding pairs to a map is making a map of all of them. -/
theorem ofList_append (pairs more : List (String × α)) :
    ofList (pairs ++ more) = (ofList pairs).recordAll more := by
  rw [ofList, recordAll, List.foldl_append]
  rfl

/-- The entries of a map stand for the list that wrote it. -/
theorem ofList_entries_append (pairs more : List (String × α)) :
    ofList ((ofList pairs).entries ++ more) = ofList (pairs ++ more) := by
  rw [ofList_append, (tidy_ofList pairs).ofList_entries, ofList_append]

-- ---------------------------------------------------------------------------
-- Maps made from values
-- ---------------------------------------------------------------------------

/-- A list of names and values. -/
def pairList (pairs : List (String × Value)) : Value :=
  .list (pairs.map fun p => .list [.text p.1, p.2])

/-- Pairs that were given as values are recorded like pairs of texts, without fault. -/
theorem recordPairs_map_text (m : NameMap Value) (pairs : List (String × Value)) :
    m.recordPairs (pairs.map fun p => (.text p.1, p.2)) = (m.recordAll pairs, none) := by
  induction pairs generalizing m with
  | nil => rfl
  | cons p rest ih =>
    rw [List.map_cons, recordPairs, Value.asText_text]
    exact ih _

theorem pairs_pairList (pairs : List (String × Value)) :
    (pairList pairs).pairs = (pairs.map fun p => (.text p.1, p.2), none) := by
  show Value.collectPairs (pairs.map fun p => .list [.text p.1, p.2]) = _
  induction pairs with
  | nil => rfl
  | cons p rest ih =>
    rw [List.map_cons, Value.collectPairs, ih]
    rfl

/-- A source whose pairs can be gone through is read as the map of these pairs. -/
theorem ofValue_of_pairs {source : Value} {pairs : List (String × Value)}
    (hPairs : source.pairs = (pairs.map fun p => (.text p.1, p.2), none))
    (hHolds : source.holds = !pairs.isEmpty) : ofValue source = .ok (ofList pairs) := by
  cases pairs with
  | nil =>
    rw [ofValue, hHolds]
    rfl
  | cons p rest =>
    rw [ofValue, hHolds, recordFrom, hPairs]
    simp only [recordPairs_map_text]
    rfl

/-- A list of names and values makes the map that it writes. -/
theorem ofValue_pairList (pairs : List (String × Value)) :
    ofValue (pairList pairs) = .ok (ofList pairs) := by
  refine ofValue_of_pairs (pairs_pairList pairs) ?_
  rw [pairList, Value.holds, List.isEmpty_map]

/-- An object makes the map that its fields write. -/
theorem ofValue_object (fields : List (String × Value)) :
    ofValue (.object fields) = .ok (ofList fields) :=
  ofValue_of_pairs rfl rfl

/-- The values of pairs as texts. -/
def texts (pairs : List (String × String)) : List (String × Value) :=
  pairs.map fun p => (p.1, .text p.2)

/-- A map over names without case that is written by a list keeps the last write of every name, at
the place of the first, and can be written again by its own entries, with the same order, whatever
is written after them. So does the map that is made from a list of names and values, and looking up
a name that was not written is a fault that tells the name in lower case. -/
theorem last_write_wins (xs ys : List (String × String)) :
    ((ofList xs).KeepsLast xs ∧ ofList (ofList xs).entries = ofList xs ∧
      ofList (xs ++ ys) = ofList ((ofList xs).entries ++ ys)) ∧
    ∃ m, ofValue (pairList (texts xs)) = .ok m ∧ m.KeepsLast (texts xs) ∧
      (∀ q, m.demand (.text q) =
        match lastUnder? xs (Text.lower q) with
        | some p => .ok (.text p.2)
        | none => .error (.missing (.text (Text.lower q)))) ∧
      ofValue (pairList m.entries) = .ok m ∧ ofValue (.object m.entries) = .ok m ∧
      ofValue (pairList (texts (xs ++ ys))) = ofValue (pairList (m.entries ++ texts ys)) := by
  have hAgain : ofList (ofList (texts xs)).entries = ofList (texts xs) :=
    (tidy_ofList (texts xs)).ofList_entries
  refine ⟨⟨keepsLast_ofList xs, (tidy_ofList xs).ofList_entries,
    (ofList_entries_append xs ys).symm⟩, ofList (texts xs), ofValue_pairList _,
    keepsLast_ofList _, fun q => ?_, ?_, ?_, ?_⟩
  · have hLast : lastUnder? (texts xs) (Text.lower q) =
        (lastUnder? xs (Text.lower q)).map fun p => (p.1, .text p.2) := by
      rw [lastUnder?, texts, List.filter_map, List.getLast?_map]
      rfl
    rw [demand, get?_ofList, hLast, Option.map_map]
    cases lastUnder? xs (Text.lower q) with
    | none => rfl
    | some p => rfl
  · rw [ofValue_pairList, hAgain]
  · rw [ofValue_object, hAgain]
  · rw [ofValue_pairList, ofValue_pairList, ofList_entries_append, texts, List.map_append]
    rfl

end BuildDigest.NameMap
