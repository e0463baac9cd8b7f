import BuildDigest.Proofs.Path.Normal
import BuildDigest.Proofs.Text.Sign

/-!
# Paths taken from a project

A path of a project is taken from the directory of the project. As that directory has no
detours, resolving is normalizing with it as the current directory, and going up from the
project leads to the same place.

* `Normal.directory` — the directory of a path without detours is one name up.
* `normalizeChars_join` — what was taken from one directory does not depend on another.
* `resolveChars_eq` — resolving is normalizing from the directory of the project.

The main result is `resolve_consistent`.
-/

namespace BuildDigest.Path

-- ---------------------------------------------------------------------------
-- Directories
-- ---------------------------------------------------------------------------

/-- What precedes the last slash, if more than slashes do. -/
theorem directoryChars_append_slash {dir c : List Char} (hDir : dir ≠ [])
    (hLast : dir.getLast? ≠ some '/') (hSlash : '/' ∉ c) :
    directoryChars (dir ++ '/' :: c) = dir := by
  have hHead : dir.reverse.head? ≠ some '/' := by rwa [List.head?_reverse]
  have hName : (dir ++ '/' :: c).reverse.dropWhile (· != '/') = '/' :: dir.reverse := by
    rw [List.reverse_append, List.reverse_cons, List.append_assoc, List.singleton_append,
      Text.dropWhile_append_sign (by simpa using hSlash) (by simp)]
  have hTrimmed : ('/' :: dir.reverse).dropWhile (· == '/') = dir.reverse :=
    (dropWhile_slash hHead : dir.reverse.dropWhile (· == '/') = dir.reverse)
  unfold directoryChars
  simp only [hName, hTrimmed]
  rw [if_neg (by simpa using hDir), List.reverse_reverse]

/-- The directory of a file at the root is the root. -/
theorem directoryChars_slashes (double : Bool) {c : List Char} (hSlash : '/' ∉ c) :
    directoryChars (slashes double ++ c) = slashes double := by
  have hName : (slashes double ++ c).reverse.dropWhile (· != '/') = slashes double := by
    rw [List.reverse_append, Text.dropWhile_append_sign (by simpa using hSlash) ?_]
    · cases double <;> rfl
    · cases double <;> simp [slashes]
  unfold directoryChars
  simp only [hName]
  cases double <;> rfl

/-- The directory of a place is the place above it. The root is above itself. -/
theorem directoryChars_written {q : Place} (h : q.Sound) :
    directoryChars q.written = (q.step ['.', '.']).written := by
  obtain ⟨double, names⟩ := q
  cases names using List.reverseRecOn with
  | nil => cases double <;> rfl
  | append_singleton names c =>
    have hSlash : '/' ∉ c := (h c (List.mem_append_right names (List.mem_singleton_self c))).slash
    have hNames : Place.Sound ⟨double, names⟩ := fun d hd => h d (List.mem_append_left [c] hd)
    have hStep : Place.step ⟨double, names ++ [c]⟩ ['.', '.'] = ⟨double, names⟩ := by
      simp [Place.step]
    rw [hStep, Place.written, joinParts_concat]
    by_cases hNone : names = []
    · subst hNone
      simpa [Place.written, joinParts] using directoryChars_slashes double hSlash
    · have hPath : slashes double ++ ((if names = [] then [] else joinParts names ++ ['/']) ++ c) =
          Place.written ⟨double, names⟩ ++ '/' :: c := by
        rw [if_neg hNone]
        simp [Place.written]
      rw [hPath]
      exact directoryChars_append_slash hNames.normal.ne_nil (hNames.getLast?_written hNone) hSlash

section

variable {path dir : List Char}

/-- The directory of a path without detours has none either, and is the place above the path. -/
theorem Normal.directory (h : Normal path) :
    Normal (directoryChars path) ∧
      Place.ofPath (directoryChars path) = (Place.ofPath path).step ['.', '.'] := by
  obtain ⟨q, hSound, rfl⟩ := h.exists_place
  have hAbove : (q.step ['.', '.']).Sound := hSound.step (by decide) (by decide)
  rw [directoryChars_written hSound, hAbove.ofPath_written, hSound.ofPath_written]
  exact ⟨hAbove.normal, rfl⟩

-- ---------------------------------------------------------------------------
-- Resolving
-- ---------------------------------------------------------------------------

/-- A path taken from an absolute directory is absolute. -/
theorem isAbsolute_join (hDir : isAbsolute dir = true) (path : List Char) :
    isAbsolute (join dir path) = true := by
  unfold join
  split
  · assumption
  · obtain ⟨rest, rfl⟩ : ∃ rest, dir = '/' :: rest :=
      List.head?_eq_some_iff.mp (by simpa [isAbsolute] using hDir)
    split <;> simp [isAbsolute]

/-- Joining adds no backslash. -/
theorem backslash_join (hDir : '\\' ∉ dir) (hPath : '\\' ∉ path) : '\\' ∉ join dir path := by
  unfold join
  split
  · exact hPath
  · split <;> simp [hDir, hPath]

/-- What was taken from one directory does not depend on another. -/
theorem normalizeChars_join (hDir : Normal dir) (cwd path : List Char) :
    normalizeChars cwd (join dir (forward path)) = normalizeChars dir path := by
  have hForward : forward (join dir (forward path)) = join dir (forward path) :=
    forward_of_not_mem (backslash_join hDir.backslash (not_mem_forward path))
  rw [normalizeChars_eq_follow, normalizeChars_eq_follow dir, hForward,
    join_of_absolute (isAbsolute_join hDir.absolute _)]

/-- Resolving is normalizing from the directory of the project. -/
theorem resolveChars_eq (h : Normal path) (cwd relative : List Char) :
    resolveChars cwd path relative = normalizeChars (directoryChars path) relative :=
  normalizeChars_join h.directory.1 cwd relative

/-- An absolute path does not depend on a directory. -/
theorem normalizeChars_of_absolute (hAbsolute : isAbsolute (forward path) = true)
    (cwd other : List Char) : normalizeChars cwd path = normalizeChars other path := by
  rw [normalizeChars_eq_follow, normalizeChars_eq_follow other, join_of_absolute hAbsolute,
    join_of_absolute hAbsolute]

/-- Only the slashes of a path count. -/
theorem normalizeChars_forward (cwd path : List Char) :
    normalizeChars cwd (forward path) = normalizeChars cwd path := by
  rw [normalizeChars_eq_follow, normalizeChars_eq_follow cwd path, forward_forward]

/-- Going up from a path below the root is going on from its directory. -/
theorem normalizeChars_up (h : Normal path) (hBelow : ¬ IsRoot path) (cwd : List Char)
    {relative : List Char} (hRelative : isAbsolute (forward relative) = false) :
    normalizeChars cwd (path ++ ['/', '.', '.', '/'] ++ relative) =
      normalizeChars (directoryChars path) relative := by
  have hOpen : ¬ (path = [] ∨ path.getLast? = some '/') := by
    rintro (hNone | hLast)
    · exact h.ne_nil hNone
    · exact hBelow (h.trailing hLast)
  have hUp : forward (path ++ ['/', '.', '.', '/'] ++ relative) =
      join path (forward (['.', '.', '/'] ++ relative)) := by
    have hPath : path.map (fun c => if c = '\\' then '/' else c) = path :=
      forward_of_not_mem h.backslash
    rw [join, if_neg (by simp [isAbsolute, forward]), if_neg hOpen]
    simp [forward, hPath]
  have hFollow : target path (forward (['.', '.', '/'] ++ relative)) =
      target (directoryChars path) (forward relative) := by
    have hForward : forward (['.', '.', '/'] ++ relative) = ['.', '.'] ++ '/' :: forward relative := by
      simp [forward]
    have hStart : isAbsolute (['.', '.'] ++ '/' :: forward relative) = false := rfl
    rw [target, hForward, hStart, if_neg Bool.false_ne_true, Place.follow_append_slash,
      Place.follow_of_not_mem (c := ['.', '.']) (by decide), ← h.directory.2, target, hRelative,
      if_neg Bool.false_ne_true]
  rw [← normalizeChars_forward, hUp, normalizeChars_join h, normalizeChars_eq_target h, hFollow,
    normalizeChars_eq_target h.directory.1]

/-- The empty path stays where it is. -/
theorem normalizeChars_nil (hDir : Normal dir) : normalizeChars dir [] = dir := by
  have hNil : isAbsolute (forward []) = false := rfl
  rw [normalizeChars_eq_target hDir, target, hNil, if_neg Bool.false_ne_true]
  exact (congrArg Place.written (Place.follow_nil _)).trans hDir.written_ofPath

end

/-- A path is resolved against a project below the root. Starting with a slash it is normalized as
it is, and else it is what the same path is after going up from the project. What comes out is
normalized and stays as it is when it is resolved again, against whatever project. Two projects
resolve every path alike exactly if they are in the same directory. -/
theorem resolve_consistent {project : String} (hProject : Normal project.toList)
    (hBelow : ¬ IsRoot project.toList) (cwd : String) :
    (∀ path, isAbsolute (forward path.toList) = true →
      resolve cwd project path = normalize cwd path) ∧
    (∀ path, isAbsolute (forward path.toList) = false →
      resolve cwd project path = normalize cwd (project ++ "/../" ++ path)) ∧
    (∀ path, normalize cwd (resolve cwd project path) = resolve cwd project path ∧
      ∀ other, resolve cwd other (resolve cwd project path) = resolve cwd project path) ∧
    ∀ other, Normal other.toList →
      ((∀ path, resolve cwd other path = resolve cwd project path) ↔
        directory other = directory project) := by
  have hResolve (other : String) (hOther : Normal other.toList) (path : String) :
      resolve cwd other path =
        String.ofList (normalizeChars (directoryChars other.toList) path.toList) := by
    rw [resolve, resolveChars_eq hOther]
  have hNormal (path : String) : Normal (resolve cwd project path).toList := by
    rw [hResolve project hProject, String.toList_ofList]
    exact normal_normalizeChars hProject.directory.1 _
  refine ⟨?_, ?_, fun path => ⟨?_, fun other => ?_⟩, fun other hOther => ⟨?_, ?_⟩⟩
  · intro path hAbsolute
    rw [hResolve project hProject, normalizeChars_of_absolute hAbsolute _ cwd.toList, normalize]
  · intro path hRelative
    rw [hResolve project hProject, ← normalizeChars_up hProject hBelow cwd.toList hRelative]
    simp [normalize]
  · rw [normalize, normalizeChars_of_normal (hNormal path), String.ofList_toList]
  · have hKept := hNormal path
    rw [resolve, resolveChars, forward_of_not_mem hKept.backslash,
      join_of_absolute hKept.absolute, normalizeChars_of_normal hKept, String.ofList_toList]
  · intro hAlike
    -- the empty path is resolved to the directory itself
    have hDirectory (other : String) (hOther : Normal other.toList) :
        resolve cwd other "" = directory other := by
      rw [hResolve other hOther, directory]
      exact congrArg String.ofList (normalizeChars_nil hOther.directory.1)
    rw [← hDirectory other hOther, ← hDirectory project hProject]
    exact hAlike ""
  · intro hDirectory
    have hChars : directoryChars other.toList = directoryChars project.toList := by
      simpa [directory] using congrArg String.toList hDirectory
    intro path
    rw [hResolve other hOther, hResolve project hProject, hChars]

/-- Two projects right under a root of two slashes, and a path that climbs above it. -/
theorem resolve_consistent_atRoot :
    Normal "//App.csproj".toList ∧ ¬ IsRoot "//App.csproj".toList ∧
      resolve "/work" "//App.csproj" "..\\lib/./A.cs" = "//lib/A.cs" ∧
      resolve "/work" "//Lib.csproj" "..\\lib/./A.cs" = "//lib/A.cs" := by
  have hApp : Normal "//App.csproj".toList := by decide
  have hLib : Normal "//Lib.csproj".toList := by decide
  have hBelow : ¬ IsRoot "//App.csproj".toList := by decide
  obtain ⟨-, hRelative, -, hAlike⟩ := resolve_consistent hApp hBelow "/work"
  have hResolved : resolve "/work" "//App.csproj" "..\\lib/./A.cs" = "//lib/A.cs" := by
    rw [hRelative _ (by decide)]
    decide
  refine ⟨hApp, hBelow, hResolved, ?_⟩
  rw [(hAlike "//Lib.csproj" hLib).mpr (by decide), hResolved]

end BuildDigest.Path
