import BuildDigest.Path
import BuildDigest.Proofs.Text.Sign
import Mathlib.Data.List.Basic
import Mathlib.Data.List.TakeWhile

/-!
# Places and the paths to them

A path leads from one place in the file system to another, component by component. A place
is told by its root and the names from there down, and is written as those names with
slashes between them.

* `Place`, `Place.step`, `Place.follow` — places, and where a component and a path lead.
* `Place.follow_join` — a relative path that is taken from a directory leads on from there.
* `Place.reduce_components` — following a path is what reducing its components does.
* `Place.Sound.follow_written` — what a place is written as leads to it from the root.
-/

namespace BuildDigest.Path

/-- A component that leads from a place to one below it, written with slashes only. -/
structure IsName (c : List Char) : Prop where
  ne_nil : c ≠ []
  ne_dot : c ≠ ['.']
  ne_dots : c ≠ ['.', '.']
  slash : '/' ∉ c
  backslash : '\\' ∉ c

/-- Whether a path starts with two slashes and no third. -/
def startsDouble (path : List Char) : Bool :=
  (path.takeWhile (· == '/')).length == 2

/-- The slashes of a root. -/
def slashes (double : Bool) : List Char :=
  if double then ['/', '/'] else ['/']

/-- A place in the file system: whether its root is written with two slashes, and the names from
the root down to it. -/
structure Place where
  double : Bool
  names : List (List Char)
  deriving DecidableEq, Repr

namespace Place

/-- Where a component leads. At the root there is no way up. -/
def step (q : Place) (component : List Char) : Place :=
  if component = [] ∨ component = ['.'] then q
  else if component = ['.', '.'] then { q with names := q.names.dropLast }
  else { q with names := q.names ++ [component] }

/-- Where a path leads. -/
def follow (q : Place) (path : List Char) : Place :=
  (components path).foldl step q

def written (q : Place) : List Char :=
  slashes q.double ++ joinParts q.names

def Sound (q : Place) : Prop :=
  ∀ c ∈ q.names, IsName c

/-- The root that an absolute path starts at. -/
def root (path : List Char) : Place :=
  ⟨startsDouble path, []⟩

end Place

-- ---------------------------------------------------------------------------
-- Components
-- ---------------------------------------------------------------------------

/-- A slash separates the components before it from those after it. -/
theorem components_append_slash (before after : List Char) :
    components (before ++ '/' :: after) = components before ++ components after := by
  simp only [components, Text.pieceChars_eq_splitOn, List.splitOn_append_cons_self]

theorem components_slash (path : List Char) : components ('/' :: path) = [] :: components path :=
  components_append_slash [] path

theorem components_of_not_mem {c : List Char} (hSlash : '/' ∉ c) : components c = [c] := by
  rw [components, Text.pieceChars_eq_splitOn, List.splitOn_eq_singleton hSlash]

theorem joinParts_components (path : List Char) : joinParts (components path) = path := by
  rw [joinParts, components, Text.pieceChars_eq_splitOn, List.intercalate_splitOn]

/-- Names without slashes are the components of the path that they are written as. -/
theorem components_joinParts {names : List (List Char)} (hSlash : ∀ c ∈ names, '/' ∉ c)
    (hSome : names ≠ []) : components (joinParts names) = names := by
  rw [joinParts, components, Text.pieceChars_eq_splitOn, List.splitOn_intercalate '/' hSlash hSome]

/-- A component has its characters from the path, and no slash among them. -/
theorem mem_components {path c : List Char} (hc : c ∈ components path) :
    '/' ∉ c ∧ ∀ x ∈ c, x ∈ path := by
  rcases Text.sign_cases '/' path with hNone | ⟨first, rest, hFirst, hPath⟩
  · rw [components_of_not_mem hNone] at hc
    obtain rfl := List.mem_singleton.mp hc
    exact ⟨hNone, fun x hx => hx⟩
  · have hParts : components path = first :: components rest := by
      rw [hPath, components_append_slash, components_of_not_mem hFirst, List.singleton_append]
    rw [hParts] at hc
    rw [hPath]
    rcases List.mem_cons.mp hc with rfl | hLater
    · exact ⟨hFirst, fun x hx => List.mem_append_left _ hx⟩
    · obtain ⟨hSlash, hChars⟩ := mem_components hLater
      refine ⟨hSlash, fun x hx => ?_⟩
      exact List.mem_append_right first (List.mem_cons_of_mem '/' (hChars x hx))
termination_by path.length
decreasing_by
  rw [hPath, List.length_append, List.length_cons]
  omega

-- ---------------------------------------------------------------------------
-- Roots
-- ---------------------------------------------------------------------------

theorem takeWhile_slash {path : List Char} (hHead : path.head? ≠ some '/') :
    path.takeWhile (· == '/') = [] := by
  cases path with
  | nil => rfl
  | cons c rest => simpa using hHead

theorem dropWhile_slash {path : List Char} (hHead : path.head? ≠ some '/') :
    path.dropWhile (· == '/') = path := by
  have hWhole := List.takeWhile_append_dropWhile (p := (· == '/')) (l := path)
  rwa [takeWhile_slash hHead, List.nil_append] at hWhole

/-- The slashes of a root, in front of what does not start with one. -/
theorem takeWhile_slashes (double : Bool) {rest : List Char} (hHead : rest.head? ≠ some '/') :
    (slashes double ++ rest).takeWhile (· == '/') = slashes double := by
  have hAll : ∀ c ∈ slashes double, (c == '/') = true := by cases double <;> simp [slashes]
  rw [List.takeWhile_append_of_pos hAll, takeWhile_slash hHead, List.append_nil]

/-- What follows the slashes of a root is what is left without them. -/
theorem dropWhile_slashes (double : Bool) {rest : List Char} (hHead : rest.head? ≠ some '/') :
    (slashes double ++ rest).dropWhile (· == '/') = rest := by
  have hEq := List.takeWhile_append_dropWhile (p := (· == '/')) (l := slashes double ++ rest)
  rw [takeWhile_slashes double hHead] at hEq
  exact List.append_cancel_left hEq

/-- The slashes of a root tell whether there are two. -/
theorem startsDouble_slashes (double : Bool) {rest : List Char} (hHead : rest.head? ≠ some '/') :
    startsDouble (slashes double ++ rest) = double := by
  rw [startsDouble, takeWhile_slashes double hHead]
  cases double <;> rfl

theorem startsDouble_of_relative {path : List Char} (hRelative : isAbsolute path = false) :
    startsDouble path = false := by
  have hHead : path.head? ≠ some '/' := by simpa [isAbsolute] using hRelative
  rw [startsDouble, takeWhile_slash hHead]
  rfl

/-- The slashes in front of a normalized path are those of the root that the path starts at. -/
theorem lead_eq (path : List Char) : lead path = slashes (startsDouble path) := by
  unfold lead
  split
  · rfl
  · rename_i rest hNotThree
    have hHead : rest.head? ≠ some '/' := by
      intro hSlash
      obtain ⟨more, rfl⟩ := List.head?_eq_some_iff.mp hSlash
      exact hNotThree more rfl
    exact (congrArg slashes (startsDouble_slashes true hHead)).symm
  · rename_i hNotThree hNotTwo
    have hSingle : startsDouble path = false := by
      match path with
      | [] => rfl
      | [c] => by_cases hc : c = '/' <;> simp [startsDouble, hc]
      | c :: d :: rest =>
        by_cases hc : c = '/'
        · by_cases hd : d = '/'
          · exact absurd (by rw [hc, hd]) (hNotTwo rest)
          · simp [startsDouble, hc, hd]
        · simp [startsDouble, hc]
    rw [hSingle]
    rfl

/-- A directory determines the root of what is taken from it. -/
theorem startsDouble_join {dir path : List Char} (hDir : dir ≠ [])
    (hRelative : isAbsolute path = false) : startsDouble (join dir path) = startsDouble dir := by
  have hHead : path.head? ≠ some '/' := by simpa [isAbsolute] using hRelative
  have hFull (hLength : (dir.takeWhile (· == '/')).length = dir.length) :
      dir.takeWhile (· == '/') = dir :=
    (List.takeWhile_prefix _).eq_of_length hLength
  rw [join, hRelative, if_neg Bool.false_ne_true, startsDouble, startsDouble]
  split
  · rw [List.takeWhile_append, takeWhile_slash hHead, List.append_nil]
    split
    · rename_i hLength
      rw [hFull hLength]
    · rfl
  · rename_i hOpen
    have hNotAll : (dir.takeWhile (· == '/')).length ≠ dir.length := by
      intro hLength
      have hEnd := List.takeWhile_eq_self_iff.mp (hFull hLength) _ (List.getLast_mem hDir)
      refine hOpen (Or.inr ?_)
      rw [List.getLast?_eq_some_getLast hDir]
      simpa using hEnd
    rw [List.takeWhile_append, if_neg hNotAll]

-- ---------------------------------------------------------------------------
-- Following
-- ---------------------------------------------------------------------------

namespace Place

variable {q : Place} {c : List Char}

theorem step_nil (q : Place) : q.step [] = q := by
  simp [step]

theorem step_name (h : IsName c) (q : Place) : q.step c = { q with names := q.names ++ [c] } := by
  rw [step, if_neg (by simp [h.ne_nil, h.ne_dot]), if_neg h.ne_dots]

/-- A component leads one name up or down, or nowhere. -/
theorem step_cases (q : Place) (c : List Char) :
    (q.step c = q ∧ (c = [] ∨ c = ['.'])) ∨
    (q.step c = { q with names := q.names.dropLast } ∧ c = ['.', '.']) ∨
    (q.step c = { q with names := q.names ++ [c] } ∧ c ≠ [] ∧ c ≠ ['.'] ∧ c ≠ ['.', '.']) := by
  unfold step
  split
  · rename_i hNowhere
    exact Or.inl ⟨rfl, hNowhere⟩
  · rename_i hSomewhere
    split
    · rename_i hUp
      exact Or.inr (Or.inl ⟨rfl, hUp⟩)
    · rename_i hDown
      exact Or.inr (Or.inr ⟨rfl, fun h => hSomewhere (Or.inl h), fun h => hSomewhere (Or.inr h), hDown⟩)

theorem follow_nil (q : Place) : q.follow [] = q :=
  step_nil q

/-- A path is followed up to a slash and then from there. -/
theorem follow_append_slash (q : Place) (before after : List Char) :
    q.follow (before ++ '/' :: after) = (q.follow before).follow after := by
  rw [follow, components_append_slash, List.foldl_append, follow, follow]

theorem follow_slash (q : Place) (path : List Char) : q.follow ('/' :: path) = q.follow path := by
  rw [follow, components_slash, List.foldl_cons, step_nil, follow]

theorem follow_of_not_mem (hSlash : '/' ∉ c) (q : Place) : q.follow c = q.step c := by
  rw [follow, components_of_not_mem hSlash, List.foldl_cons, List.foldl_nil]

/-- A relative path that is taken from a directory leads on from where the directory is. -/
theorem follow_join (q : Place) (dir : List Char) {path : List Char}
    (hRelative : isAbsolute path = false) :
    q.follow (join dir path) = (q.follow dir).follow path := by
  rw [join, hRelative, if_neg Bool.false_ne_true]
  split
  · rename_i hClosed
    rcases hClosed with rfl | hLast
    · rw [follow_nil, List.nil_append]
    · obtain ⟨front, rfl⟩ := List.getLast?_eq_some_iff.mp hLast
      rw [List.append_assoc, List.singleton_append, follow_append_slash, follow_append_slash,
        follow_nil]
  · exact follow_append_slash q dir path

theorem double_step (q : Place) (c : List Char) : (q.step c).double = q.double := by
  rcases q.step_cases c with ⟨hStep, -⟩ | ⟨hStep, -⟩ | ⟨hStep, -⟩ <;> rw [hStep]

/-- Following a path stays under the same root. -/
theorem double_follow (q : Place) (path : List Char) : (q.follow path).double = q.double := by
  unfold follow
  induction components path generalizing q with
  | nil => rfl
  | cons c rest ih => rw [List.foldl_cons, ih, double_step]

/-- The components that remain of a path are the names of the place that it leads to. -/
theorem reduce_components (double : Bool) (path : List Char) :
    reduce (components path) = (follow ⟨double, []⟩ path).names := by
  have hStep (passed : List (List Char)) (c : List Char) :
      (step ⟨double, passed.reverse⟩ c) = ⟨double, (Path.enter passed c).reverse⟩ := by
    unfold step Path.enter
    split
    · rfl
    · split
      · simp [List.dropLast_reverse]
      · simp
  have hRun (passed : List (List Char)) (parts : List (List Char)) :
      (parts.foldl step ⟨double, passed.reverse⟩) =
        ⟨double, (parts.foldl Path.enter passed).reverse⟩ := by
    induction parts generalizing passed with
    | nil => rfl
    | cons c rest ih => rw [List.foldl_cons, List.foldl_cons, hStep, ih]
  rw [reduce, follow]
  exact (congrArg names (hRun [] (components path))).symm

-- ---------------------------------------------------------------------------
-- Sound places
-- ---------------------------------------------------------------------------

theorem sound_root (path : List Char) : (root path).Sound :=
  List.forall_mem_nil _

/-- A step leads to a place of names: an empty component and a dot stay, two dots leave a name out,
and another component is a name. -/
theorem Sound.step (h : q.Sound) (hSlash : '/' ∉ c) (hBackslash : '\\' ∉ c) : (q.step c).Sound := by
  rcases q.step_cases c with ⟨hStep, -⟩ | ⟨hStep, -⟩ | ⟨hStep, hNe, hDot, hDots⟩
  · rw [hStep]
    exact h
  · rw [hStep]
    intro name hName
    exact h name (List.dropLast_subset _ hName)
  · rw [hStep]
    intro name hName
    rcases List.mem_append.mp hName with hOld | hNew
    · exact h name hOld
    · obtain rfl := List.mem_singleton.mp hNew
      exact ⟨hNe, hDot, hDots, hSlash, hBackslash⟩

/-- By induction on the components of a path, following it leads to a place of names. -/
theorem Sound.follow (h : q.Sound) {path : List Char} (hBackslash : '\\' ∉ path) :
    (q.follow path).Sound := by
  have hParts : ∀ c ∈ components path, '/' ∉ c ∧ '\\' ∉ c := by
    intro c hc
    exact ⟨(mem_components hc).1, fun hMem => hBackslash ((mem_components hc).2 _ hMem)⟩
  rw [Place.follow]
  generalize components path = parts at hParts
  induction parts generalizing q with
  | nil => exact h
  | cons c rest ih =>
    have hFirst := hParts c (List.mem_cons_self ..)
    exact ih (h.step hFirst.1 hFirst.2) fun d hd => hParts d (List.mem_cons_of_mem c hd)

/-- Names lead down one after the other. -/
theorem foldl_step_names {names : List (List Char)} (hNames : ∀ c ∈ names, IsName c) (q : Place) :
    names.foldl Place.step q = { q with names := q.names ++ names } := by
  induction names generalizing q with
  | nil => simp
  | cons c rest ih =>
    rw [List.foldl_cons, step_name (hNames c (List.mem_cons_self ..)),
      ih fun d hd => hNames d (List.mem_cons_of_mem c hd)]
    simp

/-- The slashes in front of a path lead nowhere. -/
theorem follow_slashes (q : Place) (double : Bool) (path : List Char) :
    q.follow (slashes double ++ path) = q.follow path := by
  cases double with
  | false => exact follow_slash q path
  | true => exact (follow_slash q ('/' :: path)).trans (follow_slash q path)

/-- Names lead down, one after the other. -/
theorem follow_joinParts {names : List (List Char)} (hNames : ∀ c ∈ names, IsName c) (q : Place) :
    q.follow (joinParts names) = { q with names := q.names ++ names } := by
  by_cases hSome : names = []
  · subst hSome
    simpa [joinParts] using follow_nil q
  · rw [follow, components_joinParts (fun c hc => (hNames c hc).slash) hSome,
      foldl_step_names hNames]

/-- What a place is written as leads to it. -/
theorem Sound.follow_written (h : q.Sound) : Place.follow ⟨q.double, []⟩ q.written = q := by
  rw [written, follow_slashes, follow_joinParts h, List.nil_append]

end Place

end BuildDigest.Path
