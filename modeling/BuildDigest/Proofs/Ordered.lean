import BuildDigest.Proofs.Folders.Filing
import Mathlib.Data.List.Induction

/-!
# Last writes

A map that is written by a list of pairs has the keys in the order in which they
came first, each with the value that came last.

* `latest?`, `latestAll` — the values that came last, told without a map.
* `Ordered.get?_ofList`, `Ordered.entries_ofList` — the map has them.
-/

namespace BuildDigest

variable {κ α : Type} [DecidableEq κ]

/-- The value that came last under a key. -/
def latest? (pairs : List (κ × α)) (key : κ) : Option α :=
  ((pairs.filter fun p => decide (p.1 = key)).getLast?).map (·.2)

/-- The keys in the order in which they came first, each with the value that came last. -/
def latestAll (pairs : List (κ × α)) : List (κ × α) :=
  (pairs.map (·.1)).eraseDups.filterMap fun key => (latest? pairs key).map fun value => (key, value)

/-- The last pair decides what came last under its key. -/
theorem latest?_append_singleton (pairs : List (κ × α)) (p : κ × α) (key : κ) :
    latest? (pairs ++ [p]) key = if key = p.1 then some p.2 else latest? pairs key := by
  rw [latest?, List.filter_append]
  by_cases hKey : key = p.1
  · have hHere : [p].filter (fun q => decide (q.1 = key)) = [p] := by simp [hKey]
    rw [hHere, if_pos hKey, List.getLast?_concat, Option.map_some]
  · have hOther : [p].filter (fun q => decide (q.1 = key)) = [] := by simp [Ne.symm hKey]
    rw [hOther, if_neg hKey, List.append_nil, latest?]

namespace Ordered

theorem ofList_append_singleton (pairs : List (κ × α)) (p : κ × α) :
    ofList (pairs ++ [p]) = (ofList pairs).put p.1 p.2 := by
  rw [ofList, putAll, List.foldl_append]
  rfl

/-- A map written by a list gives the value that came last. -/
theorem get?_ofList (pairs : List (κ × α)) (key : κ) :
    (ofList pairs).get? key = latest? pairs key := by
  induction pairs using List.reverseRecOn with
  | nil => rfl
  | append_singleton pairs p ih =>
    rw [ofList_append_singleton, get?_put, latest?_append_singleton, ih]

/-- A map that is written step by step has the keys in the order in which they came first. -/
theorem keys_foldl {β : Type} {step : Ordered κ α → β → Ordered κ α} {key : β → κ}
    (hStep : ∀ m b, ∃ value, step m b = m.put (key b) value) (bs : List β) :
    (bs.foldl step .empty).keys = (bs.map key).eraseDups := by
  induction bs using List.reverseRecOn with
  | nil => rfl
  | append_singleton bs b ih =>
    obtain ⟨value, hPut⟩ := hStep (bs.foldl step .empty) b
    rw [List.foldl_concat, hPut, List.map_append, List.eraseDups_append, ← ih]
    by_cases hKnown : key b ∈ bs.map key
    · have hMem : key b ∈ (bs.foldl step .empty).keys := by rwa [ih, List.mem_eraseDups]
      have hNone : [key b].removeAll (bs.map key) = [] := by
        simpa [List.removeAll] using hKnown
      rw [keys_put_of_mem hMem, List.map_singleton, hNone, List.eraseDups_nil, List.append_nil]
    · have hMem : key b ∉ (bs.foldl step .empty).keys := by rwa [ih, List.mem_eraseDups]
      have hOne : [key b].removeAll (bs.map key) = [key b] := by
        simpa [List.removeAll] using hKnown
      rw [keys_put_of_not_mem hMem, List.map_singleton, hOne]
      rfl

/-- A map written by a list has the keys in the order in which they came first. -/
theorem keys_ofList (pairs : List (κ × α)) :
    (ofList pairs).keys = (pairs.map (·.1)).eraseDups := by
  have hStep (m : Ordered κ α) (p : κ × α) : ∃ value, m.put p.1 p.2 = m.put p.1 value := ⟨_, rfl⟩
  exact keys_foldl hStep pairs

/-- A map is told by its keys and by what is read under them, if no key stands in it twice. -/
theorem entries_eq_filterMap {m : Ordered κ α} (h : m.keys.Nodup) :
    m.entries = m.keys.filterMap fun key => (m.get? key).map fun value => (key, value) := by
  have hGet : ∀ e ∈ m.entries, m.get? e.1 = some e.2 := fun e he =>
    (lookup_eq_some_iff_mem h).mpr he
  rw [keys, List.filterMap_map]
  symm
  calc m.entries.filterMap _ = m.entries.filterMap some := by
        refine List.filterMap_congr fun e he => ?_
        rw [Function.comp_apply, hGet e he]
        rfl
    _ = m.entries := List.filterMap_some ..

/-- The values stand in the order of the keys. -/
theorem values_eq_filterMap {m : Ordered κ α} (h : m.keys.Nodup) :
    m.values = m.keys.filterMap m.get? := by
  rw [values, entries_eq_filterMap h, List.map_filterMap]
  refine List.filterMap_congr fun key _ => ?_
  rw [Option.map_map]
  exact congrFun Option.map_id _

theorem entries_ofList (pairs : List (κ × α)) : (ofList pairs).entries = latestAll pairs := by
  rw [entries_eq_filterMap (nodup_keys_ofList pairs), keys_ofList, latestAll]
  simp only [get?_ofList]

end Ordered

end BuildDigest
