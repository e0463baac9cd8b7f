import BuildDigest.Proofs.Path.Resolved

/-!
# File names

The file name of a path is its last component as it stands. Where that component is a name,
resolving keeps it; where it is empty or made of dots, the path ends in a separator or a dot
segment, and what it is resolved to has some other name.

* `isSegment` — the last components that are no names.
* `Place.follow_fileName` — the file name is what a path enters last.

The main result is `fileName_resolve`.
-/

namespace BuildDigest.Path

/-- Whether a component leads to no file of that name: it is empty, or one or two dots. -/
def isSegment (name : String) : Bool :=
  ["", ".", ".."].contains name

variable {path c : List Char}

theorem fileNameChars_of_not_mem (hSlash : '/' ∉ c) : fileNameChars c = c := by
  have hReverse : ∀ x ∈ c.reverse, (x != '/') = true :=
    Text.forall_bne_iff.mpr (by simpa using hSlash)
  rw [fileNameChars, List.takeWhile_eq_self_iff.mpr hReverse, List.reverse_reverse]

/-- The file name stands behind the last slash. -/
theorem fileNameChars_append_slash (before : List Char) (hSlash : '/' ∉ c) :
    fileNameChars (before ++ '/' :: c) = c := by
  rw [fileNameChars, List.reverse_append, List.reverse_cons, List.append_assoc,
    List.singleton_append, Text.takeWhile_append_sign (by simpa using hSlash) (by simp),
    List.reverse_reverse]

/-- A path is its file name, or it ends in a slash and its file name. -/
theorem fileName_cases (path : List Char) :
    ∃ name, '/' ∉ name ∧ fileNameChars path = name ∧
      (path = name ∨ ∃ before, path = before ++ '/' :: name) := by
  rcases Text.sign_cases '/' path.reverse with hNone | ⟨name, before, hName, hPath⟩
  · have hSlash : '/' ∉ path := by simpa using hNone
    exact ⟨path, hSlash, fileNameChars_of_not_mem hSlash, Or.inl rfl⟩
  · have hSlash : '/' ∉ name.reverse := by simpa using hName
    have hEq : path = before.reverse ++ '/' :: name.reverse := by
      rw [← List.reverse_reverse path, hPath]
      simp
    refine ⟨name.reverse, hSlash, ?_, Or.inr ⟨before.reverse, hEq⟩⟩
    rw [hEq, fileNameChars_append_slash _ hSlash]

/-- The file name is what a path enters last. -/
theorem Place.follow_fileName (q : Place) (path : List Char) :
    ∃ q' : Place, q.follow path = q'.step (fileNameChars path) := by
  obtain ⟨name, hSlash, hName, hWhole | ⟨before, hSplit⟩⟩ := fileName_cases path
  · refine ⟨q, ?_⟩
    rw [hName, hWhole, follow_of_not_mem hSlash]
  · refine ⟨q.follow before, ?_⟩
    rw [hName, hSplit, follow_append_slash, follow_of_not_mem hSlash]

/-- The file name of a place below another is the last name. -/
theorem fileNameChars_written {q : Place} (hName : IsName c) :
    fileNameChars (q.step c).written = c := by
  have hBefore : ∃ before, (q.step c).written = before ++ '/' :: c := by
    rw [Place.step_name hName, Place.written, joinParts_concat]
    by_cases hNone : q.names = []
    · cases q.double
      · exact ⟨[], by simp [slashes, hNone]⟩
      · exact ⟨['/'], by simp [slashes, hNone]⟩
    · exact ⟨slashes q.double ++ joinParts q.names, by simp [hNone]⟩
  obtain ⟨before, hWritten⟩ := hBefore
  rw [hWritten, fileNameChars_append_slash before hName.slash]

/-- A path that ends in a name is resolved to a path that ends in it. -/
theorem fileName_resolve {project : String} (hProject : Normal project.toList) (cwd : String)
    {path : String} (hName : isSegment (fileName path) = false) :
    fileName (resolve cwd project path) = fileName path := by
  obtain ⟨name, hSlash, hFileName, hPath⟩ := fileName_cases (forward path.toList)
  have hBackslash : '\\' ∉ name := by
    intro hMem
    refine not_mem_forward path.toList ?_
    rcases hPath with hWhole | ⟨before, hSplit⟩
    · rwa [hWhole]
    · rw [hSplit]
      exact List.mem_append_right before (List.mem_cons_of_mem '/' hMem)
  have hIsName : IsName name := by
    have hNot : name ≠ [] ∧ name ≠ ['.'] ∧ name ≠ ['.', '.'] := by
      refine ⟨?_, ?_, ?_⟩ <;>
      · rintro rfl
        rw [fileName, hFileName] at hName
        exact absurd hName (by decide)
    exact ⟨hNot.1, hNot.2.1, hNot.2.2, hSlash, hBackslash⟩
  obtain ⟨q, hFollow⟩ :=
    Place.follow_fileName (if isAbsolute (forward path.toList) then Place.root (forward path.toList)
      else Place.ofPath (directoryChars project.toList)) (forward path.toList)
  have hNormal := normal_normalizeChars hProject.directory.1 path.toList
  rw [fileName, resolve, String.toList_ofList, resolveChars_eq hProject,
    forward_of_not_mem hNormal.backslash, normalizeChars_eq_target hProject.directory.1, target,
    hFollow, hFileName, fileNameChars_written hIsName, fileName, hFileName]

end BuildDigest.Path
