import BuildDigest.Item.Basic
import BuildDigest.Value.Key
import Mathlib.Data.List.Forall2
import Mathlib.Data.List.Nodup
import Mathlib.Data.List.Zip

/-!
# What reports come to

The properties and the items of a project are reported piece by piece. Seen
without a tree, the reports come to two tables over names without case: a
property name keeps the spelling of its first report and the value of its last,
and an item type keeps the spelling of its first report and all its items.

* `Filing.properties`, `Filing.items` — the tables of a list of reports.
* `Ordered.forall₂_putEntries` — a table that is laid out along a list of indices
  stays laid out along it when a known key is written.
* `Value.tabulate_map_text` — a list of distinct names is its own table.
-/

namespace BuildDigest

theorem exists_of_mem_left {α β : Type} {R : α → β → Prop} {as : List α} {bs : List β}
    (h : List.Forall₂ R as bs) {a : α} (ha : a ∈ as) : ∃ b ∈ bs, R a b := by
  induction h with
  | nil => cases ha
  | cons hHere _ ih =>
    rcases List.mem_cons.mp ha with rfl | ha
    · exact ⟨_, List.mem_cons_self .., hHere⟩
    · obtain ⟨b, hb, hR⟩ := ih ha
      exact ⟨b, List.mem_cons_of_mem _ hb, hR⟩

theorem exists_of_mem_right {α β : Type} {R : α → β → Prop} {as : List α} {bs : List β}
    (h : List.Forall₂ R as bs) {b : β} (hb : b ∈ bs) : ∃ a ∈ as, R a b :=
  exists_of_mem_left h.flip hb

namespace Ordered

variable {κ α : Type} [DecidableEq κ]

/-- A new key is put at the end. -/
theorem putEntries_of_not_mem {key : κ} {entries : List (κ × α)}
    (h : key ∉ entries.map (·.1)) (value : α) :
    putEntries key value entries = entries ++ [(key, value)] := by
  induction entries with
  | nil => rfl
  | cons e rest ih =>
    rw [List.map_cons, List.mem_cons, not_or] at h
    rw [putEntries, if_neg (Ne.symm h.1), ih h.2, List.cons_append]

theorem put_of_not_mem {m : Ordered κ α} {key : κ} (h : key ∉ m.keys) (value : α) :
    (m.put key value).entries = m.entries ++ [(key, value)] :=
  putEntries_of_not_mem h value

theorem get?_eq_none_of_not_mem {m : Ordered κ α} {key : κ} (h : key ∉ m.keys) :
    m.get? key = none := by
  rw [get?, List.lookup_eq_none_iff]
  intro e he
  have hne : key ≠ e.1 := fun hEq => h (hEq ▸ List.mem_map_of_mem he)
  simpa using hne

/-- Of two values that are put under a key one after the other, the second one stays. -/
theorem putEntries_putEntries (key : κ) (v w : α) (entries : List (κ × α)) :
    putEntries key w (putEntries key v entries) = putEntries key w entries := by
  induction entries with
  | nil => simp [putEntries]
  | cons e rest ih =>
    by_cases he : e.1 = key
    · simp [putEntries, he]
    · simp [putEntries, he, ih]

theorem put_put (m : Ordered κ α) (key : κ) (v w : α) :
    (m.put key v).put key w = m.put key w :=
  congrArg Ordered.mk (putEntries_putEntries key v w m.entries)

/-- What stands in a list after a value was put into it is the new entry or stood there before. -/
theorem mem_putEntries {key : κ} {value : α} {entries : List (κ × α)} {e : κ × α}
    (he : e ∈ putEntries key value entries) : e = (key, value) ∨ e ∈ entries := by
  induction entries with
  | nil => exact Or.inl (List.mem_singleton.mp he)
  | cons e' rest ih =>
    rw [putEntries] at he
    split at he
    · rcases List.mem_cons.mp he with hHere | hRest
      · exact Or.inl hHere
      · exact Or.inr (List.mem_cons_of_mem e' hRest)
    · rcases List.mem_cons.mp he with rfl | hRest
      · exact Or.inr (List.mem_cons_self ..)
      · exact (ih hRest).imp_right (List.mem_cons_of_mem e')

theorem mem_of_get? {m : Ordered κ α} {key : κ} {value : α} (h : m.get? key = some value) :
    (key, value) ∈ m.entries := by
  obtain ⟨before, after, hEntries, _⟩ := List.lookup_eq_some_iff.mp h
  rw [hEntries]
  exact List.mem_append_right before (List.mem_cons_self ..)

/-- A key that stands once is looked up as its entry. -/
theorem lookup_eq_some_iff_mem {entries : List (κ × α)} (h : (entries.map (·.1)).Nodup) {key : κ}
    {value : α} : entries.lookup key = some value ↔ (key, value) ∈ entries := by
  induction entries with
  | nil => simp
  | cons e rest ih =>
    obtain ⟨k, v⟩ := e
    rw [List.map_cons, List.nodup_cons] at h
    rw [List.lookup_cons, List.mem_cons, Prod.mk.injEq]
    by_cases hk : key = k
    · subst hk
      have hNot : (key, value) ∉ rest := fun hMem => h.1 (List.mem_map.mpr ⟨_, hMem, rfl⟩)
      simp [hNot, eq_comm]
    · rw [beq_eq_false_iff_ne.mpr hk]
      simp [ih h.2, hk]

/-- The keys of a table with the indices along which they stand. -/
def places (m : Ordered κ α) (js : List Nat) : List (κ × Nat) :=
  m.keys.zip js

omit [DecidableEq κ] in
theorem map_places {m : Ordered κ α} {js : List Nat} (h : js.length = m.entries.length) :
    (m.places js).map (·.1) = m.keys := by
  apply List.map_fst_zip
  rw [keys, List.length_map]
  omega

/-- A search that tells entries apart by their keys finds the place of the key. -/
theorem find?_eq_lookup_places {R : Nat → κ × α → Prop} {m : Ordered κ α} {js : List Nat}
    (h : List.Forall₂ R js m.entries) {p : Nat → Bool} {key : κ}
    (hp : ∀ j e, R j e → p j = decide (key = e.1)) :
    js.find? p = (m.places js).lookup key := by
  unfold places keys
  generalize m.entries = entries at h
  induction h with
  | nil => rfl
  | @cons j e js rest hje _ ih =>
    rw [List.find?_cons, List.map_cons, List.zip_cons_cons, List.lookup_cons, hp j e hje, ih]
    by_cases hKey : key = e.1
    · rw [decide_eq_true hKey, beq_iff_eq.mpr hKey]
    · rw [decide_eq_false hKey, beq_eq_false_iff_ne.mpr hKey]

omit [DecidableEq κ] in
/-- A key that is not met along the indices is none of the table. -/
theorem not_mem_keys_of_places {m : Ordered κ α} {js : List Nat}
    (h : js.length = m.entries.length) {key : κ} (hNot : ∀ j, (key, j) ∉ m.places js) :
    key ∉ m.keys := by
  rw [← map_places h, List.mem_map]
  rintro ⟨⟨k, j⟩, hMem, rfl⟩
  exact hNot j hMem

omit [DecidableEq κ] in
/-- What is met under a key at an index is the entry that stands there. -/
theorem exists_of_mem_places {R : Nat → κ × α → Prop} {m : Ordered κ α} {js : List Nat}
    (h : List.Forall₂ R js m.entries) {key : κ} {j : Nat} (hj : (key, j) ∈ m.places js) :
    ∃ value, (key, value) ∈ m.entries ∧ R j (key, value) := by
  unfold places keys at hj
  generalize m.entries = entries at h hj
  induction h with
  | nil => cases hj
  | @cons i e is rest hie _ ih =>
    rw [List.map_cons, List.zip_cons_cons, List.mem_cons] at hj
    rcases hj with hj | hj
    · obtain ⟨rfl, rfl⟩ := Prod.mk.inj hj
      exact ⟨e.2, List.mem_cons_self .., hie⟩
    · obtain ⟨value, hMem, hR⟩ := ih hj
      exact ⟨value, List.mem_cons_of_mem _ hMem, hR⟩

omit [DecidableEq κ] in
theorem mem_keys_of_places {m : Ordered κ α} {js : List Nat} {key : κ} {j : Nat}
    (h : (key, j) ∈ m.places js) : key ∈ m.keys :=
  (List.of_mem_zip h).1

theorem places_put_of_mem {m : Ordered κ α} {key : κ} (h : key ∈ m.keys) (value : α)
    (js : List Nat) : (m.put key value).places js = m.places js := by
  rw [places, keys_put_of_mem h, places]

/-- A new key is met last, at the index that is put behind the others. -/
theorem places_put_of_not_mem {m : Ordered κ α} {key : κ} (h : key ∉ m.keys) (value : α)
    {js : List Nat} (hLength : js.length = m.entries.length) (j : Nat) :
    (m.put key value).places (js ++ [j]) = m.places js ++ [(key, j)] := by
  have hKeys : m.keys.length = js.length := by rw [keys, List.length_map, hLength]
  rw [places, keys_put_of_not_mem h, List.zip_append hKeys, places]
  rfl

/-- Entries with distinct keys stand along indices. When the key that stands at `j` is written, they
stand along them as before, if only what stands at `j` is related anew. -/
theorem forall₂_putEntries {R R' : Nat → κ × α → Prop} {js : List Nat} {entries : List (κ × α)}
    {key : κ} {value : α} {j : Nat} (h : List.Forall₂ R js entries) (hjs : js.Nodup)
    (hKeys : (entries.map (·.1)).Nodup) (hj : (key, j) ∈ (Ordered.mk entries).places js)
    (hOther : ∀ i e, i ≠ j → R i e → R' i e)
    (hHere : ∀ old, R j (key, old) → entries.lookup key = some old → R' j (key, value)) :
    List.Forall₂ R' js (putEntries key value entries) := by
  induction h with
  | nil => cases hj
  | @cons i e is rest hie hRest ih =>
    rw [List.nodup_cons] at hjs
    rw [List.map_cons, List.nodup_cons] at hKeys
    rw [places, keys, List.map_cons, List.zip_cons_cons, List.mem_cons] at hj
    by_cases he : e.1 = key
    · -- the entry to be written stands here, so `j` is this index
      have hi : i = j := by
        rcases hj with hj | hj
        · exact (Prod.mk.inj hj).2.symm
        · exact absurd (he ▸ (List.of_mem_zip hj).1) hKeys.1
      subst hi
      rw [putEntries, if_pos he]
      refine List.Forall₂.cons ?_ ?_
      · refine hHere e.2 ?_ ?_
        · rw [← he]
          exact hie
        · rw [← he]
          exact List.lookup_cons_self
      · have hNe : ∀ k ∈ is, k ≠ i := fun k hk hEq => hjs.1 (hEq ▸ hk)
        exact ((List.forall₂_and_left _ _).mpr ⟨hNe, hRest⟩).imp fun k e' h => hOther k e' h.1 h.2
    · have hj' : (key, j) ∈ (rest.map (·.1)).zip is := by
        rcases hj with hj | hj
        · exact absurd (Prod.mk.inj hj).1.symm he
        · exact hj
      have hij : i ≠ j := fun hEq => hjs.1 (hEq ▸ (List.of_mem_zip hj').2)
      rw [putEntries, if_neg he]
      refine List.Forall₂.cons (hOther i e hij hie) (ih hjs.2 hKeys.2 hj' ?_)
      intro old hR hOld
      refine hHere old hR ?_
      rw [List.lookup_cons, beq_eq_false_iff_ne.mpr (Ne.symm he)]
      exact hOld

end Ordered

namespace Filing

def addProperty (m : Ordered String (String × String)) (p : String × String) :
    Ordered String (String × String) :=
  m.put (Text.lower p.1) (((m.get? (Text.lower p.1)).map (·.1)).getD p.1, p.2)

/-- The table of the properties reported, under names in lower case. -/
def properties (reports : List (String × String)) : Ordered String (String × String) :=
  reports.foldl addProperty .empty

def addItem (m : Ordered String (String × List Item)) (item : Item) :
    Ordered String (String × List Item) :=
  m.put (Text.lower item.itemType)
    (((m.get? (Text.lower item.itemType)).map (·.1)).getD item.itemType,
      ((m.get? (Text.lower item.itemType)).map (·.2)).getD [] ++ [item])

/-- The table of the items reported, under types in lower case. -/
def items (reports : List Item) : Ordered String (String × List Item) :=
  reports.foldl addItem .empty

/-- Adding properties puts no key twice. -/
theorem nodup_addProperties {m : Ordered String (String × String)} (ps : List (String × String))
    (h : m.keys.Nodup) : (ps.foldl addProperty m).keys.Nodup := by
  induction ps generalizing m with
  | nil => exact h
  | cons p ps ih => exact ih (Ordered.nodup_keys_put h _ _)

theorem nodup_properties (reports : List (String × String)) : (properties reports).keys.Nodup :=
  nodup_addProperties reports List.nodup_nil

theorem nodup_addItems {m : Ordered String (String × List Item)} (items : List Item)
    (h : m.keys.Nodup) : (items.foldl addItem m).keys.Nodup := by
  induction items generalizing m with
  | nil => exact h
  | cons item items ih => exact ih (Ordered.nodup_keys_put h _ _)

theorem nodup_items (reports : List Item) : (items reports).keys.Nodup :=
  nodup_addItems reports List.nodup_nil

end Filing

-- ---------------------------------------------------------------------------
-- Tables of distinct names
-- ---------------------------------------------------------------------------

namespace Value

variable {α : Type}

/-- Names that are new and differ are written one after the other, behind what was there. -/
theorem writeAll_map_text (m : Table α) {pairs : List (String × α)}
    (hNodup : (pairs.map (·.1)).Nodup) (hNew : ∀ p ∈ pairs, Key.text p.1 ∉ m.keys) :
    m.writeAll (pairs.map fun p => (.text p.1, p.2)) =
      .ok ⟨m.entries ++ pairs.map fun p => (.text p.1, .text p.1, p.2)⟩ := by
  induction pairs generalizing m with
  | nil => simp [Table.writeAll]
  | cons p rest ih =>
    rw [List.map_cons, List.nodup_cons] at hNodup
    have hp : Key.text p.1 ∉ m.keys := hNew p (List.mem_cons_self ..)
    have hWrite : m.write (.text p.1) (.text p.1) p.2 =
        ⟨m.entries ++ [(.text p.1, .text p.1, p.2)]⟩ := by
      rw [Table.write, Ordered.get?_eq_none_of_not_mem hp, Ordered.put,
        Ordered.putEntries_of_not_mem hp]
      rfl
    rw [List.map_cons, Table.writeAll, key_text]
    simp only [hWrite]
    rw [ih _ hNodup.2]
    · simp
    · intro q hq hMem
      rw [Ordered.keys, List.map_append, List.mem_append] at hMem
      rcases hMem with hMem | hMem
      · exact hNew q (List.mem_cons_of_mem p hq) hMem
      · have hEq : q.1 = p.1 := by simpa using hMem
        exact hNodup.1 (hEq ▸ List.mem_map_of_mem hq)

/-- Names that differ are tabulated as they are. -/
theorem tabulate_map_text {pairs : List (String × α)} (hNodup : (pairs.map (·.1)).Nodup) :
    tabulate (pairs.map fun p => (.text p.1, p.2)) =
      .ok (pairs.map fun p => (.text p.1, p.2)) := by
  rw [tabulate, writeAll_map_text _ hNodup fun _ _ => by simp]
  simp [Except.map, Ordered.values, Ordered.empty]

end Value

end BuildDigest
