import BuildDigest.Proofs.Path.Place
import Mathlib.Data.List.Induction
import Mathlib.Tactic.MkIffOfInductiveProp

/-!
# Normalized paths

Normalizing follows a path from the root, or from a directory when the path is relative,
and writes down the place that it leads to. What is written down has no detours, and every
path without detours is left as it is.

* `Normal` — the paths without detours. `Normal.exists_place`, `Place.Sound.normal` — they are what
  places are written as.
* `target` — the place that a path leads to.
* `normalizeChars_eq_follow`, `normalizeChars_of_normal` — what normalizing does to a path, and
  that it does nothing to one without detours.

The main result is `normalize_canonical`.
-/

namespace BuildDigest.Path

/-- A path of nothing but slashes. -/
def IsRoot (path : List Char) : Prop :=
  ∀ c ∈ path, c = '/'

/-- An absolute path without detours: one or two slashes in front, and then names with single
slashes between them. -/
@[mk_iff]
structure Normal (path : List Char) : Prop where
  absolute : isAbsolute path = true
  atMostTwo : (path.takeWhile (· == '/')).length ≤ 2
  backslash : '\\' ∉ path
  components : path.dropWhile (· == '/') ≠ [] → ∀ c ∈ Path.components (path.dropWhile (· == '/')),
    c ≠ [] ∧ c ≠ ['.'] ∧ c ≠ ['.', '.']
  trailing : path.getLast? = some '/' → IsRoot path

instance (path : List Char) : Decidable (IsRoot path) :=
  List.decidableBAll (· = '/') path

instance (path : List Char) : Decidable (Normal path) :=
  decidable_of_iff _ (normal_iff path).symm

/-- The place that a path without detours is written for. -/
def Place.ofPath (path : List Char) : Place :=
  ⟨startsDouble path, (Path.components path).filter (· ≠ [])⟩

/-- The place that a path leads to, from the root if it starts with a slash and else from a
directory. -/
def target (cwd path : List Char) : Place :=
  (if isAbsolute path then Place.root path else Place.ofPath cwd).follow path

-- ---------------------------------------------------------------------------
-- Names with slashes between them
-- ---------------------------------------------------------------------------

/-- A name more is written behind a slash, unless it is the first. -/
theorem joinParts_concat (names : List (List Char)) (c : List Char) :
    joinParts (names ++ [c]) = (if names = [] then [] else joinParts names ++ ['/']) ++ c := by
  induction names with
  | nil => simp [joinParts]
  | cons d rest ih =>
    have hTail : rest ++ [c] ≠ [] := List.append_ne_nil_of_right_ne_nil rest (List.cons_ne_nil c [])
    have hCons : joinParts (d :: (rest ++ [c])) = d ++ '/' :: joinParts (rest ++ [c]) := by
      simp [joinParts, List.intercalate_cons_of_ne_nil hTail]
    rw [List.cons_append, hCons, ih, if_neg (List.cons_ne_nil d rest)]
    by_cases hRest : rest = []
    · simp [hRest, joinParts]
    · simp [hRest, joinParts, List.intercalate_cons_of_ne_nil hRest]

section

variable {names : List (List Char)}

/-- Names in a row do not start with a slash. -/
theorem head?_joinParts (hNames : ∀ c ∈ names, IsName c) : (joinParts names).head? ≠ some '/' := by
  cases names with
  | nil => simp [joinParts]
  | cons d rest =>
    have hName := hNames d (List.mem_cons_self ..)
    obtain ⟨x, xs, rfl⟩ := List.exists_cons_of_ne_nil hName.ne_nil
    have hHead : (joinParts ((x :: xs) :: rest)).head? = some x := by
      cases rest with
      | nil => simp [joinParts]
      | cons e more => simp [joinParts]
    rw [hHead]
    intro hSlash
    exact hName.slash (by rw [Option.some.inj hSlash]; exact List.mem_cons_self ..)

/-- Names in a row do not end in a slash. -/
theorem getLast?_joinParts (hNames : ∀ c ∈ names, IsName c) :
    (joinParts names).getLast? ≠ some '/' := by
  cases names using List.reverseRecOn with
  | nil => simp [joinParts]
  | append_singleton init c =>
    have hName := hNames c (List.mem_append_right init (List.mem_singleton_self c))
    rw [joinParts_concat, List.getLast?_append_of_ne_nil _ hName.ne_nil]
    intro hSlash
    exact hName.slash (List.mem_of_getLast? hSlash)

/-- Names in a row hold no backslash. -/
theorem backslash_joinParts (hNames : ∀ c ∈ names, IsName c) : '\\' ∉ joinParts names := by
  induction names using List.reverseRecOn with
  | nil => simp [joinParts]
  | append_singleton init c ih =>
    have hName := hNames c (List.mem_append_right init (List.mem_singleton_self c))
    have hInit := ih fun d hd => hNames d (List.mem_append_left [c] hd)
    rw [joinParts_concat]
    split <;> simp [hName.backslash, hInit]

end

-- ---------------------------------------------------------------------------
-- Paths without detours
-- ---------------------------------------------------------------------------

namespace Place

variable {q : Place}

/-- Below the root no slash ends what is written. -/
theorem Sound.getLast?_written (h : q.Sound) (hBelow : q.names ≠ []) :
    q.written.getLast? ≠ some '/' := by
  have hSome : joinParts q.names ≠ [] := by
    intro hEmpty
    have hParts := components_joinParts (fun c hc => (h c hc).slash) hBelow
    rw [hEmpty] at hParts
    have hMem : [] ∈ q.names := by
      rw [← hParts]
      exact List.mem_singleton_self []
    exact (h [] hMem).ne_nil rfl
  rw [written, List.getLast?_append_of_ne_nil _ hSome]
  exact getLast?_joinParts h

/-- What a place is written as has no detours. -/
theorem Sound.normal (h : q.Sound) : Normal q.written where
  absolute := by cases hDouble : q.double <;> simp [written, slashes, hDouble, isAbsolute]
  atMostTwo := by
    rw [written, takeWhile_slashes q.double (head?_joinParts h)]
    cases q.double <;> simp [slashes]
  backslash := by
    have hNames := backslash_joinParts h
    cases hDouble : q.double <;> simp [written, slashes, hDouble, hNames]
  components := by
    rw [written, dropWhile_slashes q.double (head?_joinParts h)]
    intro hBelow c hc
    have hSome : q.names ≠ [] := by
      intro hNone
      exact hBelow (by rw [hNone]; rfl)
    rw [components_joinParts (fun d hd => (h d hd).slash) hSome] at hc
    exact ⟨(h c hc).ne_nil, (h c hc).ne_dot, (h c hc).ne_dots⟩
  trailing := by
    intro hLast
    by_cases hNone : q.names = []
    · rw [written, hNone, joinParts]
      cases q.double <;> simp [slashes, IsRoot]
    · exact absurd hLast (h.getLast?_written hNone)

/-- The place that is read off what a place is written as. -/
theorem Sound.ofPath_written (h : q.Sound) : ofPath q.written = q := by
  have hParts : (Path.components q.written).filter (· ≠ []) =
      (Path.components (joinParts q.names)).filter (· ≠ []) := by
    cases hDouble : q.double <;> simp [written, slashes, hDouble, components_slash]
  have hNames : (Path.components (joinParts q.names)).filter (· ≠ []) = q.names := by
    by_cases hSome : q.names = []
    · rw [hSome]
      rfl
    · rw [components_joinParts (fun c hc => (h c hc).slash) hSome]
      exact List.filter_eq_self.mpr fun c hc => by simpa using (h c hc).ne_nil
  rw [ofPath, hParts, hNames, written, startsDouble_slashes q.double (head?_joinParts h)]

end Place

section

variable {path : List Char}

/-- The slashes in front of an absolute path, of which there are at most two. -/
theorem Normal.takeWhile_eq (h : Normal path) :
    path.takeWhile (· == '/') = slashes (startsDouble path) := by
  have hAll : path.takeWhile (· == '/') = List.replicate (path.takeWhile (· == '/')).length '/' := by
    refine List.eq_replicate_length.mpr ?_
    intro c hc
    simpa using List.mem_takeWhile_imp hc
  have hSome : (path.takeWhile (· == '/')).length ≠ 0 := by
    obtain ⟨rest, rfl⟩ : ∃ rest, path = '/' :: rest :=
      List.head?_eq_some_iff.mp (by simpa [isAbsolute] using h.absolute)
    simp
  have hBound := h.atMostTwo
  rw [startsDouble, hAll, List.length_replicate]
  generalize (path.takeWhile (· == '/')).length = n at hSome hBound
  obtain rfl | rfl : n = 1 ∨ n = 2 := by omega
  · rfl
  · rfl

/-- A path without detours is what a place is written as. -/
theorem Normal.exists_place (h : Normal path) : ∃ q : Place, q.Sound ∧ q.written = path := by
  have hWhole := List.takeWhile_append_dropWhile (p := (· == '/')) (l := path)
  rw [h.takeWhile_eq] at hWhole
  by_cases hBelow : path.dropWhile (· == '/') = []
  · refine ⟨⟨startsDouble path, []⟩, List.forall_mem_nil _, ?_⟩
    rw [hBelow] at hWhole
    exact hWhole
  · refine ⟨⟨startsDouble path, Path.components (path.dropWhile (· == '/'))⟩, ?_, ?_⟩
    · intro c hc
      obtain ⟨hNe, hDot, hDots⟩ := h.components hBelow c hc
      obtain ⟨hSlash, hChars⟩ := mem_components hc
      refine ⟨hNe, hDot, hDots, hSlash, ?_⟩
      intro hMem
      exact h.backslash ((List.dropWhile_suffix _).subset (hChars _ hMem))
    · rw [Place.written, joinParts_components]
      exact hWhole

/-- What a normal path is written for is a place of names without slashes. -/
theorem Normal.sound_ofPath (h : Normal path) : (Place.ofPath path).Sound := by
  obtain ⟨q, hSound, rfl⟩ := h.exists_place
  rw [hSound.ofPath_written]
  exact hSound

theorem Normal.written_ofPath (h : Normal path) : (Place.ofPath path).written = path := by
  obtain ⟨q, hSound, rfl⟩ := h.exists_place
  rw [hSound.ofPath_written]

/-- A path without detours leads from its root to the place that it is written for. -/
theorem Normal.follow_root (h : Normal path) :
    (Place.root path).follow path = Place.ofPath path := by
  obtain ⟨q, hSound, rfl⟩ := h.exists_place
  have hRoot : Place.root q.written = ⟨q.double, []⟩ := by
    rw [Place.root, Place.written, startsDouble_slashes q.double (head?_joinParts hSound)]
  rw [hRoot, hSound.follow_written, hSound.ofPath_written]

theorem Normal.ne_nil (h : Normal path) : path ≠ [] := by
  rintro rfl
  exact absurd h.absolute (by decide)

-- ---------------------------------------------------------------------------
-- Normalizing
-- ---------------------------------------------------------------------------

/-- Without backslashes there is nothing to turn into slashes. -/
theorem forward_of_not_mem (hBackslash : '\\' ∉ path) : forward path = path := by
  have hKept : ∀ c ∈ path, (if c = '\\' then '/' else c) = id c := by
    intro c hc
    refine if_neg ?_
    rintro rfl
    exact hBackslash hc
  rw [forward, List.map_congr_left hKept, List.map_id]

theorem join_of_absolute (hAbsolute : isAbsolute path = true) (dir : List Char) :
    join dir path = path := by
  rw [join, if_pos hAbsolute]

/-- Normalizing writes down the place that a path leads to from its root. -/
theorem normalizeChars_eq_follow (cwd path : List Char) :
    normalizeChars cwd path =
      ((Place.root (join cwd (forward path))).follow (join cwd (forward path))).written := by
  show lead (join cwd (forward path)) ++ _ = _
  rw [lead_eq, Place.reduce_components (startsDouble (join cwd (forward path))), Place.written,
    Place.double_follow]
  rfl

end

section

variable {cwd path : List Char}

/-- The normalized path is the one that the target is written with. -/
theorem normalizeChars_eq_target (hCwd : Normal cwd) (path : List Char) :
    normalizeChars cwd path = (target cwd (forward path)).written := by
  rw [normalizeChars_eq_follow, target]
  cases hAbsolute : isAbsolute (forward path) with
  | true => rw [join_of_absolute hAbsolute, if_pos rfl]
  | false =>
    have hRoot : Place.root (join cwd (forward path)) = Place.root cwd := by
      rw [Place.root, Place.root, startsDouble_join hCwd.ne_nil hAbsolute]
    rw [if_neg Bool.false_ne_true, Place.follow_join _ _ hAbsolute, hRoot, hCwd.follow_root]

/-- Whatever is normalized from a normal directory is normal. -/
theorem normal_normalizeChars (hCwd : Normal cwd) (path : List Char) :
    Normal (normalizeChars cwd path) := by
  rw [normalizeChars_eq_target hCwd, target]
  refine Place.Sound.normal (Place.Sound.follow ?_ (not_mem_forward path))
  split
  · exact Place.sound_root _
  · exact hCwd.sound_ofPath

/-- A path without detours is normalized already, whatever the directory is. -/
theorem normalizeChars_of_normal (h : Normal path) (cwd : List Char) :
    normalizeChars cwd path = path := by
  rw [normalizeChars_eq_follow, forward_of_not_mem h.backslash, join_of_absolute h.absolute,
    h.follow_root, h.written_ofPath]

end

/-- Paths are taken from a directory without detours. Normalizing follows a path from the root if
it starts with a slash and else from the directory, and writes down the place that it leads to. The
root keeps the two slashes of a path that starts with exactly two; of a directory with one slash no
other path has two. What is written down has no detours. The results are the paths that normalizing
leaves as they are, and these are the paths without detours. -/
theorem normalize_canonical {cwd : String} (hCwd : Normal cwd.toList) :
    (∀ path, normalize cwd path =
        String.ofList (target cwd.toList (forward path.toList)).written ∧
      (startsDouble cwd.toList = false →
        (target cwd.toList (forward path.toList)).double = startsDouble (forward path.toList))) ∧
    (∀ path, Normal (normalize cwd path).toList) ∧
    ∀ path, ((∃ given, normalize cwd given = path) ↔ normalize cwd path = path) ∧
      (normalize cwd path = path ↔ Normal path.toList) := by
  have hNormal (path : String) : Normal (normalize cwd path).toList := by
    rw [normalize, String.toList_ofList]
    exact normal_normalizeChars hCwd _
  have hKept (path : String) (h : Normal path.toList) : normalize cwd path = path := by
    rw [normalize, normalizeChars_of_normal h, String.ofList_toList]
  refine ⟨fun path => ⟨?_, ?_⟩, hNormal, fun path => ⟨⟨?_, ?_⟩, ⟨?_, hKept path⟩⟩⟩
  · rw [normalize, normalizeChars_eq_target hCwd]
  · intro hSingle
    rw [target, Place.double_follow]
    cases hAbsolute : isAbsolute (forward path.toList) with
    | true => rfl
    | false =>
      rw [if_neg Bool.false_ne_true, startsDouble_of_relative hAbsolute]
      exact hSingle
  · rintro ⟨given, rfl⟩
    exact hKept _ (hNormal given)
  · intro hFixed
    exact ⟨path, hFixed⟩
  · intro hFixed
    rw [← hFixed]
    exact hNormal path

/-- A path that climbs out of the directory and past the root, written with both separators. -/
theorem normalize_canonical_climbing :
    Normal "/work".toList ∧ normalize "/work" "a\\..\\../..//../b/./c\\" = "/b/c" ∧
      normalize "/work" "/b/c" = "/b/c" := by
  have hWork : Normal "/work".toList := by decide
  obtain ⟨hTarget, hNormal, hFixed⟩ := normalize_canonical hWork
  have hClimbing : normalize "/work" "a\\..\\../..//../b/./c\\" = "/b/c" := by
    rw [(hTarget _).1]
    decide
  exact ⟨hWork, hClimbing, (hFixed "/b/c").1.mp ⟨_, hClimbing⟩⟩

end BuildDigest.Path
