import BuildDigest.Proofs.Path.FileName
import BuildDigest.Snapshot.Facts

/-!
# Source files and compilers

The positional arguments of a compiler call are source files, but for those whose file
names are compilers. An argument is compared as it stands and reported as it is resolved.
Both have the same file name unless the argument ends in a separator or a dot segment; such
an argument is reported even when it leads to a compiler.

* `Text.isSegment_lower` — what is a name is one in lower case.
* `Snapshot.sourceFiles_eq` — the source files of a project.

The main result is `Snapshot.sourceFiles_spared`.
-/

namespace BuildDigest

-- ---------------------------------------------------------------------------
-- Dots in lower case
-- ---------------------------------------------------------------------------

namespace Text

/-- No character but the dot has the code of the dot, since the code of an invalid one is zero. -/
theorem eq_of_ofNat_eq_dot {n : Nat} (h : Char.ofNat n = '.') : n = 46 := by
  by_cases hValid : n.isValidChar
  · have hDot : '.'.toNat = 46 := rfl
    rw [← hDot, ← h, Char.ofNat, dif_pos hValid]
    rfl
  · rw [Char.ofNat, dif_neg hValid] at h
    cases h

/-- No capital beyond ASCII has a dot for its small form. -/
theorem lowerCode_ne_dot {n : Nat} (hBeyond : 0x80 ≤ n) : lowerCode n ≠ 46 := by
  have hRuns : ∀ r ∈ capitalRuns, (46 : Int) < r.1 + r.2.2.2 := by decide +kernel
  unfold lowerCode
  split
  · rename_i r hFind
    have hRun := hRuns r (List.mem_of_find?_eq_some hFind)
    have hFrom := List.find?_some hFind
    simp only [Bool.and_eq_true, decide_eq_true_eq] at hFrom
    omega
  · omega

/-- Only a dot has a dot for its small form. -/
theorem eq_dot_of_lowerChar {before after : List Char} {c : Char}
    (h : ∀ x ∈ lowerChar before c after, x = '.') : c = '.' := by
  unfold lowerChar at h
  split at h
  · have hSmall := h _ (List.mem_singleton_self _)
    split at hSmall
    · rename_i hCapital
      have hCode := eq_of_ofNat_eq_dot hSmall
      have hA : 'A'.toNat ≤ c.toNat := hCapital.1
      have hFirst : 'A'.toNat = 65 := rfl
      omega
    · exact hSmall
  · rename_i hBeyond
    split at h
    · have hSigma := h _ (List.mem_singleton_self _)
      split at hSigma <;> cases hSigma
    · split at h
      · cases h 'i' (List.mem_cons_self ..)
      · have hCode := eq_of_ofNat_eq_dot (h _ (List.mem_singleton_self _))
        exact absurd hCode (lowerCode_ne_dot (by omega))

theorem lowerChar_dot (before after : List Char) : lowerChar before '.' after = ['.'] := rfl

/-- A text whose small form has dots only is that small form. -/
theorem eq_of_lowerFrom_dots {before cs : List Char} (h : ∀ x ∈ lowerFrom before cs, x = '.') :
    lowerFrom before cs = cs := by
  induction cs generalizing before with
  | nil => rfl
  | cons c rest ih =>
    rw [lowerFrom] at h ⊢
    obtain rfl : c = '.' := eq_dot_of_lowerChar fun x hx => h x (List.mem_append_left _ hx)
    rw [lowerChar_dot, ih fun x hx => h x (List.mem_append_right _ hx)]
    rfl

/-- What is a name is one in lower case, and the other way round. -/
theorem isSegment_lower (name : String) : Path.isSegment (lower name) = Path.isSegment name := by
  have hDots (s : String) (h : Path.isSegment s = true) : ∀ x ∈ s.toList, x = '.' := by
    have hCases : s = "" ∨ s = "." ∨ s = ".." := by simpa [Path.isSegment] using h
    rcases hCases with rfl | rfl | rfl <;> simp
  rw [Bool.eq_iff_iff]
  constructor
  · intro hLower
    have hSame : lower name = name := by
      have hAll := hDots _ hLower
      rw [lower, String.toList_ofList] at hAll
      rw [lower, eq_of_lowerFrom_dots hAll, String.ofList_toList]
    rwa [hSame] at hLower
  · intro hSegment
    have hCases : name = "" ∨ name = "." ∨ name = ".." := by simpa [Path.isSegment] using hSegment
    rcases hCases with rfl | rfl | rfl <;> decide

end Text

namespace Snapshot

variable {s : Snapshot} {project : String}

/-- The source files of a project are resolved from the arguments that name no compiler. -/
theorem sourceFiles_eq (hProject : s.project = .text project) (cwd : String) :
    s.sourceFiles cwd =
      .ok (((positionals (operands s.arguments)).filter s.isSource).map
        (Path.resolve cwd project)) := by
  rw [sourceFiles, hProject, Path.resolvedAll_text]

/-- An argument is a source if its file name, up to case, is that of no compiler. -/
theorem isSource_iff {files : List String} (hFiles : s.compilerFiles = files.map Text.lower)
    (value : String) :
    s.isSource value = true ↔
      value ≠ "" ∧ ∀ file ∈ files, Text.lower (Path.fileName value) ≠ Text.lower file := by
  rw [isSource, hFiles, Bool.and_eq_true, bne_iff_ne, Bool.not_eq_true', ← Bool.not_eq_true,
    List.contains_iff_mem]
  refine and_congr_right fun _ => ⟨?_, ?_⟩
  · intro hNone file hFile hEq
    refine hNone ?_
    rw [hEq]
    exact List.mem_map_of_mem hFile
  · intro hAll hMem
    obtain ⟨file, hFile, hEq⟩ := List.mem_map.mp hMem
    exact hAll file hFile hEq.symm

/-- The source files of a project are normalized paths. No compiler is among them exactly if no
argument that ends in a separator or a dot segment leads to one. -/
theorem sourceFiles_spared {files : List String} (hProject : s.project = .text project)
    (hNormal : Path.Normal project.toList) (hFiles : s.compilerFiles = files.map Text.lower)
    (hNames : ∀ file ∈ files, Path.isSegment file = false) (cwd : String) :
    ∃ sources, s.sourceFiles cwd = .ok sources ∧
      (∀ path ∈ sources, Path.Normal path.toList ∧ Path.normalize cwd path = path) ∧
      ((∀ path ∈ sources, ∀ file ∈ files,
          Text.lower (Path.fileName path) ≠ Text.lower file) ↔
        ∀ value ∈ positionals (operands s.arguments), value ≠ "" →
          Path.isSegment (Path.fileName value) = true → ∀ file ∈ files,
            Text.lower (Path.fileName (Path.resolve cwd project value)) ≠ Text.lower file) := by
  refine ⟨_, sourceFiles_eq hProject cwd, ?_, ?_, ?_⟩
  · intro path hPath
    obtain ⟨value, -, rfl⟩ := List.mem_map.mp hPath
    have hResolved : Path.Normal (Path.resolve cwd project value).toList := by
      rw [Path.resolve, String.toList_ofList, Path.resolveChars_eq hNormal]
      exact Path.normal_normalizeChars hNormal.directory.1 value.toList
    refine ⟨hResolved, ?_⟩
    rw [Path.normalize, Path.normalizeChars_of_normal hResolved, String.ofList_toList]
  · intro hSpared value hValue hGiven hSegment
    have hSource : s.isSource value = true := by
      refine (isSource_iff hFiles value).mpr ⟨hGiven, fun file hFile hEq => ?_⟩
      have hFileSegment := Text.isSegment_lower file
      rw [← hEq, Text.isSegment_lower, hSegment, hNames file hFile] at hFileSegment
      cases hFileSegment
    exact hSpared _ (List.mem_map_of_mem (List.mem_filter.mpr ⟨hValue, hSource⟩))
  · intro hSpared path hPath
    obtain ⟨value, hValue, rfl⟩ := List.mem_map.mp hPath
    obtain ⟨hMem, hSource⟩ := List.mem_filter.mp hValue
    obtain ⟨hGiven, hOther⟩ := (isSource_iff hFiles value).mp hSource
    cases hSegment : Path.isSegment (Path.fileName value) with
    | true => exact hSpared value hMem hGiven hSegment
    | false =>
      rw [Path.fileName_resolve hNormal cwd hSegment]
      exact hOther

/-- A compiler with a slash after its name is reported as a source file. -/
theorem sourceFiles_spared_trailingSlash :
    ∃ s s' sources, start (.text "/repo/App/App.csproj") .null [.text "csc.dll"] = .ok s ∧
      s.recordInvocation (.text "dotnet exec csc.dll/ Program.cs") true = .ok s' ∧
      s'.sourceFiles "/work" = .ok sources ∧
      ¬ ∀ path ∈ sources, ∀ file ∈ ["csc.dll"],
        Text.lower (Path.fileName path) ≠ Text.lower file := by
  obtain ⟨s, hStart, hProject, hFiles⟩ :
      ∃ s, start (.text "/repo/App/App.csproj") .null [.text "csc.dll"] = .ok s ∧
        s.project = .text "/repo/App/App.csproj" ∧
        s.compilerFiles = ["csc.dll"].map Text.lower := ⟨_, rfl, rfl, by decide⟩
  have hRecorded : s.recordInvocation (.text "dotnet exec csc.dll/ Program.cs") true =
      .ok { s with
        compilerArguments := some (CommandLine.arguments "dotnet exec csc.dll/ Program.cs") } := by
    have hLine : Text.strip "dotnet exec csc.dll/ Program.cs" ≠ "" := by decide
    rw [recordInvocation_text, if_neg (by simp [hLine])]
  have hNormal : Path.Normal "/repo/App/App.csproj".toList := by decide
  have hNames : ∀ file ∈ ["csc.dll"], Path.isSegment file = false := by decide
  have hSlash : "csc.dll/" ∈
      positionals (operands (CommandLine.arguments "dotnet exec csc.dll/ Program.cs")) := by decide
  obtain ⟨sources, hSources, -, hSpared⟩ :=
    sourceFiles_spared (s := { s with compilerArguments := some _ }) hProject hNormal hFiles hNames
      "/work"
  refine ⟨s, _, sources, hStart, hRecorded, hSources, ?_⟩
  rw [hSpared]
  intro hNone
  exact hNone "csc.dll/" hSlash (by decide) (by decide) "csc.dll" (by decide) (by decide)

end Snapshot

end BuildDigest
