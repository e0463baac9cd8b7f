import Mathlib.Data.List.Basic

/-!
# Marked lists

A list whose elements are marked with the ones to whom they belong is one list for
each mark, put together. A place of the list is a place among what bears its mark,
and a change there is a change of that and of nothing else.

* `Marked.own` — what bears a mark.
* `Marked.rank` — a place among what bears a mark.
* `Marked.own_modify` — a change at one place.
-/

namespace BuildDigest.Marked

variable {ι α : Type} {es : List (ι × α)} {k : Nat}

def marks (es : List (ι × α)) : List ι :=
  es.map (·.1)

theorem marks_append (es more : List (ι × α)) : marks (es ++ more) = marks es ++ marks more :=
  List.map_append

/-- A marked list with the element at a place changed, which keeps its mark. -/
def modify (es : List (ι × α)) (k : Nat) (f : α → α) : List (ι × α) :=
  es.modify k fun e => (e.1, f e.2)

/-- A change leaves the marks, and the elements at all other places. -/
theorem getElem?_modify (es : List (ι × α)) (k i : Nat) (f : α → α) :
    (modify es k f)[i]? = es[i]?.map fun e => (e.1, if k = i then f e.2 else e.2) := by
  rw [modify, List.getElem?_modify]
  cases es[i]? with
  | none => rfl
  | some e => by_cases h : k = i <;> simp [h]

theorem marks_modify (es : List (ι × α)) (k : Nat) (f : α → α) :
    marks (modify es k f) = marks es := by
  refine List.ext_getElem? fun i => ?_
  rw [marks, List.getElem?_map, getElem?_modify, marks, List.getElem?_map, Option.map_map]
  rfl

/-- A change of a marked list is the change of the list without marks. -/
theorem map_modify (es : List (ι × α)) (k : Nat) (f : α → α) :
    (modify es k f).map (·.2) = (es.map (·.2)).modify k f := by
  refine List.ext_getElem? fun i => ?_
  rw [List.getElem?_map, getElem?_modify, List.getElem?_modify, List.getElem?_map, Option.map_map,
    Option.map_eq_map, Option.map_map]
  refine Option.map_congr fun e _ => ?_
  by_cases h : k = i <;> simp [h]

variable [DecidableEq ι] {x y : ι}

/-- What bears a mark, in order. -/
def own (x : ι) (es : List (ι × α)) : List α :=
  (es.filter fun e => e.1 = x).map (·.2)

/-- How many of the first elements bear a mark. -/
def rank (x : ι) (es : List (ι × α)) (k : Nat) : Nat :=
  ((marks es).take k).count x

/-- The first element bears the mark or does not. -/
theorem own_cons (x : ι) (e : ι × α) (es : List (ι × α)) :
    own x (e :: es) = if e.1 = x then e.2 :: own x es else own x es := by
  by_cases h : e.1 = x
  · rw [own, List.filter_cons_of_pos (by simpa using h), if_pos h]
    rfl
  · rw [own, List.filter_cons_of_neg (by simpa using h), if_neg h]
    rfl

theorem own_append (x : ι) (es more : List (ι × α)) :
    own x (es ++ more) = own x es ++ own x more := by
  rw [own, List.filter_append, List.map_append, own, own]

/-- An element bears a mark if it stands in the list with it. -/
theorem mem_own {b : α} : b ∈ own x es ↔ (x, b) ∈ es := by
  rw [own, List.mem_map]
  constructor
  · rintro ⟨⟨y, c⟩, hMem, rfl⟩
    obtain ⟨hThere, hMark⟩ := List.mem_filter.mp hMem
    obtain rfl : y = x := of_decide_eq_true hMark
    exact hThere
  · exact fun hMem => ⟨(x, b), List.mem_filter.mpr ⟨hMem, decide_eq_true rfl⟩, rfl⟩

/-- A list that bears one mark throughout. -/
theorem own_map_mk (x y : ι) (bs : List α) :
    own y (bs.map fun b => (x, b)) = if x = y then bs else [] := by
  induction bs with
  | nil => rw [ite_self]; rfl
  | cons b bs ih =>
    rw [List.map_cons, own_cons, ih]
    by_cases h : x = y
    · rw [if_pos h, if_pos h, if_pos h]
    · rw [if_neg h, if_neg h, if_neg h]

/-- As many elements bear a mark as the mark stands in the list. -/
theorem length_own (x : ι) (es : List (ι × α)) : (own x es).length = (marks es).count x := by
  induction es with
  | nil => rfl
  | cons e es ih =>
    rw [own_cons, marks, List.map_cons, List.count_cons, ← marks, ← ih]
    by_cases h : e.1 = x <;> simp [h]

/-- A change at a place is one in what bears the mark of the place, and none in the rest. -/
theorem own_modify (f : α → α) (hMark : (marks es)[k]? = some y) (x : ι) :
    own x (modify es k f) = if y = x then (own x es).modify (rank x es k) f else own x es := by
  induction es generalizing k with
  | nil => cases hMark
  | cons e es ih =>
    cases k with
    | zero =>
      obtain rfl : e.1 = y := Option.some.inj hMark
      rw [modify, List.modify_zero_cons, own_cons, own_cons]
      by_cases h : e.1 = x <;> simp [h, rank]
    | succ k =>
      have ih := ih (k := k) (by simpa [marks] using hMark)
      rw [modify, List.modify_succ_cons, ← modify, own_cons, own_cons, ih]
      by_cases h : e.1 = x <;> by_cases hy : y = x <;>
        simp [h, hy, rank, marks, List.take_succ_cons]

theorem rank_append (hk : k ≤ es.length) (x : ι) (more : List (ι × α)) :
    rank x (es ++ more) k = rank x es k := by
  rw [rank, marks, List.map_append, List.take_append_of_le_length (by rwa [List.length_map]), rank,
    marks]

theorem rank_length (x : ι) (es : List (ι × α)) : rank x es es.length = (own x es).length := by
  have hLength : (marks es).length ≤ es.length := Nat.le_of_eq (List.length_map _)
  rw [rank, length_own, List.take_of_length_le hLength]

theorem rank_modify (x : ι) (es : List (ι × α)) (j : Nat) (f : α → α) :
    rank x (modify es j f) = rank x es := by
  funext k
  rw [rank, marks_modify, rank]

end BuildDigest.Marked
