import BuildDigest.Proofs.Ordered

/-!
# What is reported under a name

The tables that reports come to hold the last value reported under a name and all
items reported of a type, in any spelling. Their keys are the names in lower
case, in the order in which they were reported first.

* `Filing.lastValue`, `Filing.group?` — what is reported under a name.
* `Filing.get?_properties`, `Filing.get?_items` — the tables hold it.
* `Filing.Folded` — keys are names in lower case.
* `Filing.listed`, `Filing.grouped` — what is reported under all names, one after the other.
* `Filing.values_properties`, `Filing.values_items` — the tables list it.
* `Filing.perm_grouped` — no item is lost or doubled.
-/

namespace BuildDigest.Filing

/-- The last value that is reported under a name, in any spelling. -/
def lastValue (reports : List (String × String)) (q : String) : Option String :=
  ((reports.filter fun p => Text.lower p.1 = Text.lower q).getLast?).map (·.2)

/-- The items that are reported of a type, in any spelling; none at all is no group. -/
def group? (reports : List Item) (q : String) : Option (List Item) :=
  let group := reports.filter fun item => Text.lower item.itemType = Text.lower q
  if group.isEmpty then none else some group

/-- A later report under a name counts more. -/
theorem lastValue_append (reports more : List (String × String)) (q : String) :
    lastValue (reports ++ more) q = (lastValue more q).or (lastValue reports q) := by
  rw [lastValue, lastValue, lastValue, List.filter_append, List.getLast?_append]
  cases (more.filter fun p => Text.lower p.1 = Text.lower q).getLast? <;> rfl

/-- What is listed of the properties under a name in lower case: the spelling of the first report
with the value of the last. -/
def listedUnder? (reports : List (String × String)) (folded : String) : Option (String × String) :=
  let under := reports.filter fun p => Text.lower p.1 = folded
  under.head?.bind fun first => under.getLast?.map fun last => (first.1, last.2)

/-- The group of the items of a type in lower case: the spelling of the first report with all
items. -/
def groupUnder? (reports : List Item) (folded : String) : Option (String × List Item) :=
  let under := reports.filter fun item => Text.lower item.itemType = folded
  under.head?.map fun first => (first.itemType, under)

/-- A table of reported properties has under a name what is listed of it, by induction on the
reports from the last one back. -/
theorem get?_properties_eq (reports : List (String × String)) (folded : String) :
    (properties reports).get? folded = listedUnder? reports folded := by
  induction reports using List.reverseRecOn with
  | nil => rfl
  | append_singleton reports p ih =>
    rw [properties, List.foldl_concat, ← properties, addProperty, Ordered.get?_put]
    unfold listedUnder? at ih ⊢
    simp only [List.filter_append] at ih ⊢
    by_cases hp : folded = Text.lower p.1
    · subst hp
      rw [if_pos rfl, ih]
      -- the spelling is that of the first report so far, or of this one
      cases reports.filter fun r => Text.lower r.1 = Text.lower p.1 with
      | nil => simp
      | cons first rest => simp [List.getLast?_cons]
    · simp [hp, Ne.symm hp, ih]

/-- A table of reported items has under a type the group of it, by induction on the reports from the
last one back. -/
theorem get?_items_eq (reports : List Item) (folded : String) :
    (items reports).get? folded = groupUnder? reports folded := by
  induction reports using List.reverseRecOn with
  | nil => rfl
  | append_singleton reports item ih =>
    rw [items, List.foldl_concat, ← items, addItem, Ordered.get?_put]
    unfold groupUnder? at ih ⊢
    simp only [List.filter_append] at ih ⊢
    by_cases hItem : folded = Text.lower item.itemType
    · subst hItem
      rw [if_pos rfl, ih]
      cases reports.filter fun r => Text.lower r.itemType = Text.lower item.itemType with
      | nil => simp
      | cons first rest => simp
    · simp [hItem, Ne.symm hItem, ih]

/-- The value of a name in the table is the last one that is reported. -/
theorem get?_properties (reports : List (String × String)) (q : String) :
    ((properties reports).get? (Text.lower q)).map (·.2) = lastValue reports q := by
  rw [get?_properties_eq, listedUnder?, lastValue]
  cases reports.filter fun p => Text.lower p.1 = Text.lower q with
  | nil => rfl
  | cons first rest => simp [List.getLast?_cons]

/-- The group of a type in the table has all items that are reported of it. -/
theorem get?_items (reports : List Item) (q : String) :
    ((items reports).get? (Text.lower q)).map (·.2) = group? reports q := by
  rw [get?_items_eq, groupUnder?, group?]
  cases reports.filter fun item => Text.lower item.itemType = Text.lower q with
  | nil => rfl
  | cons first rest => simp

-- ---------------------------------------------------------------------------
-- Keys are names in lower case
-- ---------------------------------------------------------------------------

/-- Every key is the name of its entry in lower case. -/
def Folded {α : Type} (m : Ordered String (String × α)) : Prop :=
  ∀ e ∈ m.entries, e.1 = Text.lower e.2.1

/-- A table stays folded when an entry is put under its own name in lower case. -/
theorem Folded.put {α : Type} {m : Ordered String (String × α)} (h : Folded m) {key : String}
    {value : String × α} (hKey : key = Text.lower value.1) : Folded (m.put key value) := by
  intro e he
  rcases Ordered.mem_putEntries he with rfl | he
  · exact hKey
  · exact h e he

/-- The spelling under which a name was first reported, or the one it is reported in now. -/
theorem Folded.lower_getD {α : Type} {m : Ordered String (String × α)} (h : Folded m)
    (name : String) :
    Text.lower name = Text.lower (((m.get? (Text.lower name)).map (·.1)).getD name) := by
  cases hGet : m.get? (Text.lower name) with
  | none => rfl
  | some value => exact h _ (Ordered.mem_of_get? hGet)

/-- The table of the properties is folded, however names are spelled. -/
theorem folded_properties (reports : List (String × String)) : Folded (properties reports) := by
  induction reports using List.reverseRecOn with
  | nil => exact nofun
  | append_singleton reports p ih =>
    rw [properties, List.foldl_concat, ← properties]
    exact ih.put (ih.lower_getD p.1)

/-- The table of the items is folded, however types are spelled. -/
theorem folded_items (reports : List Item) : Folded (items reports) := by
  induction reports using List.reverseRecOn with
  | nil => exact nofun
  | append_singleton reports item ih =>
    rw [items, List.foldl_concat, ← items]
    exact ih.put (ih.lower_getD item.itemType)

/-- The names of a folded table in lower case are its keys. -/
theorem Folded.map_values {α : Type} {m : Ordered String (String × α)} (h : Folded m) :
    (m.values.map fun p => Text.lower p.1) = m.keys := by
  rw [Ordered.values, Ordered.keys, List.map_map]
  exact List.map_congr_left fun e he => (h e he).symm

/-- In a folded table the entry of a name is found by going through the values. -/
theorem Folded.find?_values {α : Type} {m : Ordered String (String × α)} (h : Folded m)
    (key : String) : (m.values.find? fun p => Text.lower p.1 = key) = m.get? key := by
  unfold Folded at h
  unfold Ordered.values Ordered.get?
  generalize m.entries = entries at h
  induction entries with
  | nil => rfl
  | cons e rest ih =>
    rw [List.forall_mem_cons] at h
    rw [List.map_cons, List.find?_cons, List.lookup_cons, ← h.1, ih h.2]
    by_cases hKey : e.1 = key
    · rw [decide_eq_true hKey, beq_iff_eq.mpr hKey.symm]
    · rw [decide_eq_false hKey, beq_eq_false_iff_ne.mpr (Ne.symm hKey)]

/-- Of the values of a table one has a name, and it is the one under its key. -/
theorem Folded.getLast?_values {α : Type} {m : Ordered String (String × α)} (h : Folded m)
    (hNodup : m.keys.Nodup) (key : String) :
    (m.values.filter fun p => Text.lower p.1 = key).getLast? = m.get? key := by
  unfold Ordered.keys at hNodup
  unfold Folded at h
  unfold Ordered.values Ordered.get?
  generalize m.entries = entries at h hNodup
  induction entries with
  | nil => rfl
  | cons e rest ih =>
    rw [List.forall_mem_cons] at h
    rw [List.map_cons, List.nodup_cons] at hNodup
    rw [List.map_cons, List.filter_cons, List.lookup_cons, ← h.1]
    by_cases hKey : e.1 = key
    · have hRest : (rest.map (·.2)).filter (fun p => Text.lower p.1 = key) = [] := by
        rw [List.filter_eq_nil_iff]
        intro p hp hName
        obtain ⟨e', he', rfl⟩ := List.mem_map.mp hp
        have hSame : e'.1 = e.1 := (h.2 e' he').trans ((of_decide_eq_true hName).trans hKey.symm)
        exact hNodup.1 (hSame ▸ List.mem_map_of_mem he')
      rw [if_pos (decide_eq_true hKey), hRest, beq_iff_eq.mpr hKey.symm]
      rfl
    · rw [if_neg (by simpa using hKey), beq_eq_false_iff_ne.mpr (Ne.symm hKey)]
      exact ih h.2 hNodup.2

-- ---------------------------------------------------------------------------
-- What is reported under all names
-- ---------------------------------------------------------------------------

/-- The properties that are reported, once under each name in lower case, in the order of the first
reports. -/
def listed (reports : List (String × String)) : List (String × String) :=
  (reports.map fun p => Text.lower p.1).eraseDups.filterMap (listedUnder? reports)

/-- The items that are reported, in one group for each type in lower case, in the order of the first
reports. -/
def grouped (reports : List Item) : List (String × List Item) :=
  (reports.map fun item => Text.lower item.itemType).eraseDups.filterMap (groupUnder? reports)

/-- The keys of the properties are the names in the order of their first reports. -/
theorem keys_properties (reports : List (String × String)) :
    (properties reports).keys = (reports.map fun p => Text.lower p.1).eraseDups :=
  Ordered.keys_foldl (fun _ _ => ⟨_, rfl⟩) reports

/-- The keys of the items are the types in the order of their first reports. -/
theorem keys_items (reports : List Item) :
    (items reports).keys = (reports.map fun item => Text.lower item.itemType).eraseDups :=
  Ordered.keys_foldl (fun _ _ => ⟨_, rfl⟩) reports

/-- The values of the table are the properties as they are listed. -/
theorem values_properties (reports : List (String × String)) :
    (properties reports).values = listed reports := by
  rw [Ordered.values_eq_filterMap (nodup_properties reports), keys_properties]
  exact List.filterMap_congr fun folded _ => get?_properties_eq reports folded

/-- The values of the table are the items as they are grouped. -/
theorem values_items (reports : List Item) : (items reports).values = grouped reports := by
  rw [Ordered.values_eq_filterMap (nodup_items reports), keys_items]
  exact List.filterMap_congr fun folded _ => get?_items_eq reports folded

/-- Every name that is reported is listed once. -/
theorem map_lower_listed (reports : List (String × String)) :
    ((listed reports).map fun p => Text.lower p.1) =
      (reports.map fun p => Text.lower p.1).eraseDups := by
  rw [← values_properties, (folded_properties reports).map_values, keys_properties]

/-- Every type that is reported has one group. -/
theorem map_lower_grouped (reports : List Item) :
    ((grouped reports).map fun g => Text.lower g.1) =
      (reports.map fun item => Text.lower item.itemType).eraseDups := by
  rw [← values_items, (folded_items reports).map_values, keys_items]

/-- A group holds the items of its type, in any spelling, as they were reported. -/
theorem group_of_mem_grouped {reports : List Item} {g : String × List Item}
    (hg : g ∈ grouped reports) :
    g.2 = reports.filter fun item => Text.lower item.itemType = Text.lower g.1 := by
  obtain ⟨folded, _, hGroup⟩ := List.mem_filterMap.mp hg
  obtain ⟨first, hFirst, rfl⟩ := Option.map_eq_some_iff.mp hGroup
  have hName := (List.mem_filter.mp (List.mem_of_head? hFirst)).2
  rw [decide_eq_true_eq] at hName
  simp only [hName]

/-- The groups of all keys, one after the other, are the whole list. -/
theorem perm_flatMap_eraseDups {α κ : Type} [DecidableEq κ] (key : α → κ) (xs : List α) :
    ((xs.map key).eraseDups.flatMap fun k => xs.filter fun x => key x = k).Perm xs := by
  match xs with
  | [] => exact .nil
  | x :: xs =>
    let here : α → Bool := fun y => key y = key x
    let others := xs.filter fun y => !here y
    have hOthers : (x :: xs).filter (fun y => !here y) = others :=
      List.filter_cons_of_neg (by simp [here])
    have hKeys : ((x :: xs).map key).eraseDups = key x :: (others.map key).eraseDups := by
      rw [List.map_cons, List.eraseDups_cons, List.filter_map]
      rfl
    -- all but the first group are those of the other elements
    have hGroups : ∀ k ∈ (others.map key).eraseDups,
        (x :: xs).filter (fun y => key y = k) = others.filter fun y => key y = k := by
      intro k hk
      obtain ⟨y, hy, rfl⟩ := List.mem_map.mp (List.mem_eraseDups.mp hk)
      have hNot : ¬ key y = key x := by simpa [here] using (List.mem_filter.mp hy).2
      rw [← hOthers, List.filter_filter]
      refine List.filter_congr fun z _ => ?_
      by_cases hz : key z = key y <;> simp [here, hz, hNot]
    rw [hKeys, List.flatMap_cons, List.flatMap_congr hGroups]
    refine ((perm_flatMap_eraseDups key others).append_left _).trans ?_
    rw [← hOthers]
    exact List.filter_append_perm here (x :: xs)
termination_by xs.length
decreasing_by exact Nat.lt_succ_of_le (List.length_filter_le _ xs)

/-- The groups, one after the other, are what was reported: no item is lost or doubled. -/
theorem perm_grouped (reports : List Item) :
    ((grouped reports).flatMap (·.2)).Perm reports := by
  refine .trans (.of_eq ?_) (perm_flatMap_eraseDups (fun item => Text.lower item.itemType) reports)
  rw [grouped]
  induction (reports.map fun item => Text.lower item.itemType).eraseDups with
  | nil => rfl
  | cons folded rest ih =>
    rw [List.filterMap_cons, List.flatMap_cons, ← ih, groupUnder?]
    cases reports.filter fun item => Text.lower item.itemType = folded with
    | nil => rfl
    | cons first others => rfl

end BuildDigest.Filing
