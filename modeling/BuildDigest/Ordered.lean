/-!
# Maps in order of first arrival

A finite map that lists its keys in the order in which they first came: writing
a key that is there replaces its value and keeps its place. It is the shape of
every table here whose order is seen: fields of an object, properties, item
groups, stored results.

Main results.
* `get?_put` — the last value written under a key is read.
* `keys_put_of_mem`, `keys_put_of_not_mem` — a known key keeps its place, a new one comes last.
* `nodup_keys_ofList` — no key is listed twice.
-/

namespace BuildDigest

/-- Keys and values in order of first arrival. -/
structure Ordered (κ α : Type) where
  entries : List (κ × α)
  deriving Repr

namespace Ordered

variable {κ α : Type} [DecidableEq κ]

def empty : Ordered κ α :=
  ⟨[]⟩

def putEntries (key : κ) (value : α) : List (κ × α) → List (κ × α)
  | [] => [(key, value)]
  | e :: rest => if e.1 = key then (key, value) :: rest else e :: putEntries key value rest

def put (m : Ordered κ α) (key : κ) (value : α) : Ordered κ α :=
  ⟨putEntries key value m.entries⟩

def get? (m : Ordered κ α) (key : κ) : Option α :=
  m.entries.lookup key

def contains (m : Ordered κ α) (key : κ) : Bool :=
  (m.get? key).isSome

def keys (m : Ordered κ α) : List κ :=
  m.entries.map (·.1)

/-- The values in the order of their keys. -/
def values (m : Ordered κ α) : List α :=
  m.entries.map (·.2)

def putAll (m : Ordered κ α) (pairs : List (κ × α)) : Ordered κ α :=
  pairs.foldl (fun m p => m.put p.1 p.2) m

/-- The map written by a list of pairs. -/
def ofList (pairs : List (κ × α)) : Ordered κ α :=
  empty.putAll pairs

omit [DecidableEq κ] in
@[simp] theorem keys_empty : (empty : Ordered κ α).keys = [] := rfl

theorem lookup_putEntries [BEq κ] [LawfulBEq κ] (key k : κ) (value : α) (entries : List (κ × α)) :
    (putEntries key value entries).lookup k =
      if k = key then some value else entries.lookup k := by
  induction entries with
  | nil =>
    by_cases h : k = key
    · subst h; simp [putEntries]
    · have : (k == key) = false := by simpa using h
      simp [putEntries, List.lookup_cons, this, h]
  | cons e rest ih =>
    obtain ⟨k', v'⟩ := e
    by_cases he : k' = key
    · subst he
      by_cases h : k = k'
      · subst h; simp [putEntries]
      · have : (k == k') = false := by simpa using h
        simp [putEntries, List.lookup_cons, this, h]
    · by_cases h : k = k'
      · subst h; simp [putEntries, he]
      · have : (k == k') = false := by simpa using h
        simp [putEntries, he, List.lookup_cons, this, ih]

/-- The last value written under a key is read. -/
theorem get?_put (m : Ordered κ α) (key k : κ) (value : α) :
    (m.put key value).get? k = if k = key then some value else m.get? k :=
  lookup_putEntries key k value m.entries

theorem map_putEntries (key : κ) (value : α) (entries : List (κ × α)) :
    (putEntries key value entries).map (·.1) =
      if key ∈ entries.map (·.1) then entries.map (·.1) else entries.map (·.1) ++ [key] := by
  induction entries with
  | nil => simp [putEntries]
  | cons e rest ih =>
    by_cases he : e.1 = key
    · subst he; simp [putEntries]
    · have he' : ¬ key = e.1 := fun h => he h.symm
      simp only [putEntries, if_neg he, List.map_cons, ih, List.mem_cons, he', false_or]
      split <;> simp

theorem keys_put_of_mem {m : Ordered κ α} {key : κ} (h : key ∈ m.keys) (value : α) :
    (m.put key value).keys = m.keys := by
  simpa [put, keys, h] using map_putEntries key value m.entries ▸ if_pos h

theorem keys_put_of_not_mem {m : Ordered κ α} {key : κ} (h : key ∉ m.keys) (value : α) :
    (m.put key value).keys = m.keys ++ [key] := by
  simpa [put, keys] using map_putEntries key value m.entries ▸ if_neg h

theorem nodup_keys_put {m : Ordered κ α} (h : m.keys.Nodup) (key : κ) (value : α) :
    (m.put key value).keys.Nodup := by
  by_cases hk : key ∈ m.keys
  · rw [keys_put_of_mem hk]; exact h
  · rw [keys_put_of_not_mem hk, List.nodup_append]
    refine ⟨h, by simp, ?_⟩
    intro a ha b hb
    rw [List.mem_singleton] at hb
    subst hb
    exact fun hab => hk (hab ▸ ha)

theorem nodup_keys_putAll {m : Ordered κ α} (h : m.keys.Nodup) (pairs : List (κ × α)) :
    (m.putAll pairs).keys.Nodup := by
  induction pairs generalizing m with
  | nil => exact h
  | cons p rest ih => exact ih (nodup_keys_put h p.1 p.2)

theorem nodup_keys_ofList (pairs : List (κ × α)) : (ofList pairs).keys.Nodup :=
  nodup_keys_putAll (by simp) pairs

end Ordered

end BuildDigest
