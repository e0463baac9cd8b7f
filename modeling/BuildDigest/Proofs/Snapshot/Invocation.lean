import BuildDigest.Proofs.CommandLine.Strokes
import BuildDigest.Proofs.Outcome
import BuildDigest.Snapshot.Basic
import Mathlib.Data.List.Basic
import Mathlib.Data.List.Induction

/-!
# Which compiler call a snapshot keeps

Of the command lines that are reported as compiler calls a snapshot keeps the last one of
the core target, or else the first of all. A blank line does not count. A line that is not
blank counts, also one in which nothing but empty quotes stands: it has no program, and yet
it keeps other calls out or takes their place.

* `CommandLine.isIdle`, `CommandLine.parts_eq_nil_iff` — the lines without parts.
* `Snapshot.decisive` — the call that counts among several. `Snapshot.foldl_decisive` — it is
  the one that keeping call after call ends with.
* `Snapshot.recordInvocations_eq` — what a snapshot keeps of a sequence of calls.

The main result is `Snapshot.recordInvocations_start`.
-/

namespace BuildDigest

-- ---------------------------------------------------------------------------
-- Lines without parts
-- ---------------------------------------------------------------------------

namespace CommandLine

/-- Whether a line holds nothing but gaps and quotes around nothing. The flag tells whether it
starts inside quotes. -/
def isIdle (quoted : Bool) : List Char → Bool
  | [] => true
  | c :: rest =>
    if c = '"' then isIdle (!quoted) rest else isGap c && !quoted && isIdle quoted rest

/-- A line leaves nothing exactly if it holds gaps, and quotes around nothing. -/
theorem residue_eq_nil_iff (quoted : Bool) (line : List Char) :
    residue quoted (strokes line) = [] ↔ isIdle quoted line = true := by
  have hSingle (quoted : Bool) (c : Char) (rest : List Stroke) (more : List Char)
      (ih : ∀ quoted, residue quoted rest = [] ↔ isIdle quoted more = true) :
      residue quoted (.single c :: rest) = [] ↔ isIdle quoted (c :: more) = true := by
    rw [residue, List.append_eq_nil_iff, ih, isIdle, Stroke.left, Stroke.quotes]
    by_cases hQuote : c = '"'
    · simp [hQuote]
    · simp [hQuote]
  induction line using marks.induct generalizing quoted with
  | case1 => simp [strokes, residue, isIdle]
  | case2 c => exact hSingle quoted c [] [] fun quoted => by simp [residue, isIdle]
  | case3 d rest ih =>
    have hLeft : (Stroke.pair d).left quoted ≠ [] := by
      rw [Stroke.left]
      split <;> simp
    have hBackslash : isGap '\\' = false := by decide
    rw [strokes_pair, residue, List.append_eq_nil_iff, isIdle, hBackslash]
    simp [hLeft]
  | case4 c d rest hc ih =>
    rw [strokes_cons hc]
    exact hSingle quoted c _ _ fun quoted => ih quoted

/-- A line has no parts exactly if it is idle. -/
theorem parts_eq_nil_iff (line : String) : parts line = [] ↔ isIdle false line.toList = true := by
  rw [parts, List.map_eq_nil_iff, ← residue_eq_nil_iff, ← flatten_partChars, List.flatten_eq_nil_iff]
  constructor
  · intro hNone part hPart
    rw [hNone] at hPart
    cases hPart
  · intro hEmpty
    refine List.eq_nil_iff_forall_not_mem.mpr fun part hPart => ?_
    exact ne_nil_of_mem_partChars hPart (hEmpty part hPart)

/-- A line has no arguments exactly if it is idle. -/
theorem arguments_eq_nil_iff (line : String) :
    arguments line = [] ↔ isIdle false line.toList = true := by
  rw [← parts_eq_nil_iff, arguments]
  cases parts line <;> simp [classify]

/-- The arguments of a line start with its program, unless there are none. -/
theorem arguments_cases (line : String) :
    arguments line = [] ∨ ∃ program rest, arguments line = .positional program :: rest := by
  rw [arguments]
  cases parts line with
  | nil => exact Or.inl rfl
  | cons program rest => exact Or.inr ⟨program, rest.map Argument.ofPart, rfl⟩

end CommandLine

namespace Snapshot

-- ---------------------------------------------------------------------------
-- The decisive one
-- ---------------------------------------------------------------------------

section

variable {α β : Type} {wins counts : α → Bool} {x : α} {xs : List α}

/-- The last of those that win, or else the first of all. -/
def decisive (wins : α → Bool) (xs : List α) : Option α :=
  (xs.filter wins).getLast?.or xs.head?

/-- A call at the end decides if it wins, or if there was none before. -/
theorem decisive_concat (wins : α → Bool) (xs : List α) (x : α) :
    decisive wins (xs ++ [x]) = if wins x = true then some x else (decisive wins xs).or (some x) := by
  rw [decisive, decisive, List.filter_append, List.filter_singleton]
  cases wins x with
  | true => simp
  | false => cases xs <;> simp

theorem decisive_nil (wins : α → Bool) : decisive wins [] = none := rfl

theorem decisive_eq_none (h : decisive wins xs = none) : xs = [] := by
  rw [decisive, Option.or_eq_none_iff] at h
  exact List.head?_eq_none_iff.mp h.2

/-- What decides is one of the calls. -/
theorem mem_of_decisive (h : decisive wins xs = some x) : x ∈ xs := by
  rw [decisive, Option.or_eq_some_iff] at h
  rcases h with hLast | ⟨-, hFirst⟩
  · exact (List.mem_filter.mp (List.mem_of_getLast? hLast)).1
  · exact List.mem_of_mem_head? hFirst

/-- The decisive one stays so when others are left out. -/
theorem decisive_filter (h : decisive wins xs = some x) (hCounts : counts x = true) :
    decisive wins (xs.filter counts) = some x := by
  rw [decisive, Option.or_eq_some_iff] at h ⊢
  have hSwap : (xs.filter counts).filter wins = (xs.filter wins).filter counts := by
    simp only [List.filter_filter, Bool.and_comm]
  rw [hSwap]
  rcases h with hLast | ⟨hNone, hFirst⟩
  · obtain ⟨front, hFront⟩ := List.getLast?_eq_some_iff.mp hLast
    refine Or.inl ?_
    rw [hFront, List.filter_append, List.filter_singleton, hCounts]
    exact List.getLast?_concat
  · obtain ⟨rest, rfl⟩ := List.head?_eq_some_iff.mp hFirst
    refine Or.inr ⟨?_, ?_⟩
    · rw [List.getLast?_eq_none_iff.mp hNone]
      rfl
    · rw [List.filter_cons_of_pos hCounts]
      rfl

/-- What is kept in the end, if each one that counts is kept unless it neither wins nor comes
first, is what is made of the decisive one. -/
theorem foldl_decisive (wins counts : α → Bool) (make : α → β) (xs : List α) :
    xs.foldl (fun kept x =>
        if counts x = false ∨ (kept.isSome ∧ wins x = false) then kept else some (make x)) none =
      (decisive wins (xs.filter counts)).map make := by
  induction xs using List.reverseRecOn with
  | nil => rfl
  | append_singleton xs x ih =>
    rw [List.foldl_concat, ih, List.filter_append, List.filter_singleton]
    cases hCounts : counts x with
    | false => simp
    | true =>
      rw [cond_true, decisive_concat]
      cases wins x with
      | true => simp
      | false => cases decisive wins (xs.filter counts) <;> simp

end

-- ---------------------------------------------------------------------------
-- Sequences of calls
-- ---------------------------------------------------------------------------

/-- A command line that is reported as a compiler call, and whether it ran in the core target. -/
structure Invocation where
  line : Option String
  core : Bool
  deriving Repr

namespace Invocation

/-- The text of the line. An absent one is as good as an empty one. -/
def text (i : Invocation) : String :=
  i.line.getD ""

def isNoted (i : Invocation) : Bool :=
  Text.strip i.text != ""

/-- Whether the line is cut into parts, the first of which is the program. -/
def isReal (i : Invocation) : Bool :=
  i.isNoted && !(CommandLine.parts i.text).isEmpty

def arguments (i : Invocation) : List CommandLine.Argument :=
  CommandLine.arguments i.text

/-- A call is real if it is noted and its line is not idle. -/
theorem isReal_iff (i : Invocation) :
    i.isReal = true ↔ i.isNoted = true ∧ CommandLine.isIdle false i.text.toList = false := by
  rw [isReal, Bool.and_eq_true, Bool.not_eq_true', List.isEmpty_eq_false_iff, ne_eq,
    CommandLine.parts_eq_nil_iff, Bool.not_eq_true]

end Invocation

/-- Reports compiler calls one after the other. -/
def recordInvocations (s : Snapshot) (calls : List Invocation) : Except Fault Snapshot :=
  calls.foldlM (fun s i => s.recordInvocation (.ofText? i.line) i.core) s

/-- What is kept after one more call. -/
def keep (kept : Option (List CommandLine.Argument)) (i : Invocation) :
    Option (List CommandLine.Argument) :=
  if i.isNoted = false ∨ (kept.isSome ∧ i.core = false) then kept else some i.arguments

/-- Reporting a call changes which one is kept and nothing else, and never fails. -/
theorem recordInvocation_keep (s : Snapshot) (i : Invocation) :
    s.recordInvocation (.ofText? i.line) i.core =
      .ok { s with compilerArguments := keep s.compilerArguments i } := by
  obtain ⟨line, core⟩ := i
  cases line with
  | none =>
    have hBlank : Invocation.isNoted ⟨none, core⟩ = false := (by decide : (Text.strip "" != "") = false)
    rw [keep, if_pos (Or.inl hBlank)]
    rfl
  | some text =>
    have hNoted : Invocation.isNoted ⟨some text, core⟩ = false ↔ Text.strip text = "" := by
      simp [Invocation.isNoted, Invocation.text]
    simp only [keep, hNoted]
    exact s.recordInvocation_text text core

/-- A snapshot keeps what keeping call after call ends with. -/
theorem recordInvocations_eq (s : Snapshot) (calls : List Invocation) :
    s.recordInvocations calls =
      .ok { s with compilerArguments := calls.foldl keep s.compilerArguments } := by
  induction calls generalizing s with
  | nil => rfl
  | cons i rest ih =>
    rw [recordInvocations, List.foldlM_cons, recordInvocation_keep, Except.ok_bind,
      ← recordInvocations, ih, List.foldl_cons]

/-- The call that a snapshot keeps of those that count. -/
def keptOf (counts : Invocation → Bool) (calls : List Invocation) : Option Invocation :=
  decisive Invocation.core (calls.filter counts)

/-- If the call that is kept has a program, it is also the one among the calls that have one. -/
theorem keptOf_isReal {calls : List Invocation}
    (h : ∀ i ∈ keptOf Invocation.isNoted calls, CommandLine.isIdle false i.text.toList = false) :
    keptOf Invocation.isReal calls = keptOf Invocation.isNoted calls := by
  have hReal : calls.filter Invocation.isReal =
      (calls.filter Invocation.isNoted).filter fun i => !(CommandLine.parts i.text).isEmpty := by
    rw [List.filter_filter]
    exact List.filter_congr fun i _ => Bool.and_comm _ _
  cases hNoted : keptOf Invocation.isNoted calls with
  | none => rw [keptOf, hReal, decisive_eq_none hNoted, List.filter_nil, decisive_nil]
  | some i =>
    have hParts : (!(CommandLine.parts i.text).isEmpty) = true := by
      have hNotIdle := h i hNoted
      rw [Bool.not_eq_true', List.isEmpty_eq_false_iff, ne_eq, CommandLine.parts_eq_nil_iff, hNotIdle]
      exact Bool.false_ne_true
    rw [keptOf, hReal, decisive_filter hNoted hParts]

/-- A fresh snapshot keeps the last noted call of the core target, or else the first noted one. This
is the same as for the calls with a program exactly if that call is not idle. What is kept starts
with the program, unless the call was idle; then it is empty, and still counts as kept. -/
theorem recordInvocations_start {project moniker : Value} {files : List Value} {s : Snapshot}
    (hStart : start project moniker files = .ok s) (calls : List Invocation) :
    ∃ s', s.recordInvocations calls = .ok s' ∧
      s'.compilerArguments = (keptOf Invocation.isNoted calls).map Invocation.arguments ∧
      (s'.compilerArguments = (keptOf Invocation.isReal calls).map Invocation.arguments ↔
        ∀ i ∈ keptOf Invocation.isNoted calls, CommandLine.isIdle false i.text.toList = false) ∧
      ∀ args ∈ s'.compilerArguments,
        (∃ program rest, args = .positional program :: rest) ∨
        (args = [] ∧ ∃ i ∈ keptOf Invocation.isNoted calls,
          CommandLine.isIdle false i.text.toList = true) := by
  have hFresh : s.compilerArguments = none := by
    obtain ⟨names, -, rfl⟩ := Except.map_eq_ok.mp hStart
    rfl
  have hKept : calls.foldl keep s.compilerArguments =
      (keptOf Invocation.isNoted calls).map Invocation.arguments := by
    rw [hFresh]
    exact foldl_decisive Invocation.core Invocation.isNoted Invocation.arguments calls
  refine ⟨_, recordInvocations_eq s calls, hKept, ?_, ?_⟩
  · show calls.foldl keep s.compilerArguments = _ ↔ _
    rw [hKept]
    constructor
    · intro hSame i hi
      rw [hi, Option.map_some] at hSame
      obtain ⟨r, hr, hArguments⟩ := Option.map_eq_some_iff.mp hSame.symm
      have hReal : r.isReal = true := (List.mem_filter.mp (mem_of_decisive hr)).2
      have hProgram := (r.isReal_iff.mp hReal).2
      -- the arguments of a real call are not empty
      rw [← Bool.not_eq_true, ← CommandLine.arguments_eq_nil_iff] at hProgram ⊢
      rw [Invocation.arguments, Invocation.arguments] at hArguments
      rwa [← hArguments]
    · intro hProgram
      rw [keptOf_isReal hProgram]
  · show ∀ args ∈ calls.foldl keep s.compilerArguments, _
    rw [hKept]
    intro args hArgs
    obtain ⟨i, hi, rfl⟩ := Option.map_eq_some_iff.mp hArgs
    rcases CommandLine.arguments_cases i.text with hNone | hProgram
    · exact Or.inr ⟨hNone, i, hi, (CommandLine.arguments_eq_nil_iff i.text).mp hNone⟩
    · exact Or.inl hProgram

/-- Empty quotes come first, and the call of the compiler after them is not kept. -/
theorem recordInvocations_start_emptyQuotes :
    ∃ s s', start (.text "/p/a.csproj") .null [.text "csc.dll"] = .ok s ∧
      s.recordInvocations [⟨some "\"\"", false⟩, ⟨some "csc.exe a.cs", false⟩] = .ok s' ∧
      s'.compilerArguments = some [] ∧
      (keptOf Invocation.isReal [⟨some "\"\"", false⟩, ⟨some "csc.exe a.cs", false⟩]).map
        Invocation.arguments = some [.positional "csc.exe", .positional "a.cs"] := by
  obtain ⟨s, hStart⟩ : ∃ s, start (.text "/p/a.csproj") .null [.text "csc.dll"] = .ok s := ⟨_, rfl⟩
  obtain ⟨s', hRecorded, hKept, -, -⟩ := recordInvocations_start hStart
    [⟨some "\"\"", false⟩, ⟨some "csc.exe a.cs", false⟩]
  refine ⟨s, s', hStart, hRecorded, ?_, by decide⟩
  rw [hKept]
  decide

end Snapshot

end BuildDigest
